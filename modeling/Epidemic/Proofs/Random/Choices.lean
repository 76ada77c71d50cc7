import Epidemic.Proofs.Selection
import Mathlib.Data.List.Permutation
import Mathlib.Data.Set.Card

/-!
# Every order comes of one sequence of choices

A shuffle of some items makes one choice less than there are items: from the last position down to
the second, each among the position itself and those before it. If all items are distinct, different
sequences of choices lead to different orders, and each order of the items comes of one of them. So if
all choices are equally likely, all orders are. Of the sequences, as many lead to the same first items
as there are orders of the items that are left.
-/

namespace Epidemic.Random

/-- Choices written down beforehand, which are made in this order. After the last of them zero is
picked for ever. -/
structure Choices where
  /-- The choices not yet made. -/
  picks : List Nat

/-- The next choice. A choice among so many is their remainder. -/
def Choices.pick (top : Nat) (choices : Choices) : Fin (top + 1) × Choices :=
  match choices.picks with
  | [] => (0, choices)
  | pick :: rest => (Fin.ofNat (top + 1) pick, ⟨rest⟩)

instance : Chooser Choices where
  pick := Choices.pick

/-- Whether a list has one choice for each of the tops `top`, `top - 1`, …, `1`, each of them from
zero to its top. -/
inductive Admissible : Nat → List Nat → Prop where
  /-- No choice is left. -/
  | nil : Admissible 0 []
  /-- The choice for the greatest top comes before the others. -/
  | cons {top pick : Nat} {rest : List Nat} (hle : pick ≤ top + 1) (hrest : Admissible top rest) :
    Admissible (top + 1) (pick :: rest)

section Draw

variable {σ α : Type} [Chooser σ]

/-- What a chooser picks for the tops `top`, `top - 1`, …, `1`, and the state after that. -/
def draw : (top : Nat) → σ → List Nat × σ
  | 0, state => ([], state)
  | top + 1, state =>
    let (choice, after) := Chooser.pick (top + 1) state
    let (rest, last) := draw top after
    (choice.val :: rest, last)

/-- Whatever a chooser picks, there is one choice for each top. -/
theorem admissible_draw (top : Nat) (state : σ) : Admissible top (draw top state).1 := by
  induction top generalizing state with
  | zero => exact .nil
  | succ top ih => exact .cons (Nat.le_of_lt_succ (Fin.isLt _)) (ih _)

/-- The first of several choices settles the last position, if it is among those that there are. -/
theorem settleDown_cons {n top pick : Nat} (h : top + 1 < n) (hle : pick ≤ top + 1)
    (items : Vector α n) (rest : List Nat) :
    settleDown (top + 1) h items (Choices.mk (pick :: rest)) =
      settleDown top (Nat.lt_of_succ_lt h)
        (items.swap (top + 1) pick h (Nat.lt_of_le_of_lt hle h)) (Choices.mk rest) := by
  have hpick : Chooser.pick (top + 1) (Choices.mk (pick :: rest)) =
      (⟨pick, Nat.lt_succ_of_le hle⟩, Choices.mk rest) := by
    have hmod : Fin.ofNat (top + 1 + 1) pick = ⟨pick, Nat.lt_succ_of_le hle⟩ :=
      Fin.ext (Nat.mod_eq_of_lt (Nat.lt_succ_of_le hle))
    exact Prod.ext hmod rfl
  rw [settleDown, hpick]

/-- Positions are settled by what the chooser picks, and nothing else is asked of it. -/
theorem settleDown_eq_draw {n : Nat} (top : Nat) (h : top < n) (items : Vector α n) (state : σ) :
    settleDown top h items state =
      ((settleDown top h items (Choices.mk (draw top state).1)).1, (draw top state).2) := by
  induction top generalizing items state with
  | zero => rfl
  | succ top ih =>
    have hle := Nat.le_of_lt_succ (Chooser.pick (top + 1) state).1.isLt
    rw [draw, settleDown]
    dsimp only
    rw [ih, settleDown_cons h hle]

end Draw

/-! ## Settled positions -/

section Settle

variable {α : Type} {n : Nat}

/-- Settling positions leaves the greater ones as they are. -/
theorem getElem_settleDown {σ : Type} [Chooser σ] {top index : Nat} (htop : top < n)
    (habove : top < index) (hindex : index < n) (items : Vector α n) (state : σ) :
    (settleDown top htop items state).1[index] = items[index] := by
  induction top generalizing items state with
  | zero => rfl
  | succ top ih =>
    have hbelow := (Chooser.pick (top + 1) state).1.isLt
    rw [settleDown, ih (Nat.lt_of_succ_lt htop) (by omega)]
    exact Vector.getElem_swap_of_ne (by omega) (by omega)

/-- The item at the top position is the one that was picked for it. -/
theorem getElem_settleDown_top {top pick : Nat} (h : top + 1 < n) (hle : pick ≤ top + 1)
    (items : Vector α n) (rest : List Nat) :
    (settleDown (top + 1) h items (Choices.mk (pick :: rest))).1[top + 1] = items[pick] := by
  rw [settleDown_cons h hle, getElem_settleDown _ (Nat.lt_succ_self top)]
  exact Vector.getElem_swap_left _ _

/-- Distinct items are at different positions. -/
theorem eq_of_getElem_eq {items : Vector α n} (h : items.toList.Nodup) {first second : Nat}
    (hfirst : first < n) (hsecond : second < n) (heq : items[first] = items[second]) :
    first = second := by
  have hfirstList : first < items.toList.length := by rwa [Vector.length_toList]
  have hsecondList : second < items.toList.length := by rwa [Vector.length_toList]
  have hlist : items.toList[first] = items.toList[second] := by
    rw [Vector.getElem_toList, Vector.getElem_toList, heq]
  exact h.getElem_inj_iff.mp hlist

/-- Different choices settle distinct items differently. -/
theorem eq_of_settleDown_eq {top : Nat} (h : top < n) {items : Vector α n}
    (hdistinct : items.toList.Nodup) {first second : List Nat} (hfirst : Admissible top first)
    (hsecond : Admissible top second)
    (heq : (settleDown top h items (Choices.mk first)).1 =
      (settleDown top h items (Choices.mk second)).1) : first = second := by
  induction hfirst generalizing items second with
  | nil =>
    cases hsecond
    rfl
  | @cons top pick rest hle hrest ih =>
    cases hsecond with
    | @cons _ other others hle' hothers =>
      have htop := getElem_settleDown_top h hle items rest
      rw [Vector.ext_iff.mp heq (top + 1) h, getElem_settleDown_top h hle'] at htop
      have hsame : other = pick := eq_of_getElem_eq hdistinct (by omega) (by omega) htop
      subst hsame
      rw [settleDown_cons h hle, settleDown_cons h hle] at heq
      have hswapped : (items.swap (top + 1) other h (by omega)).toList.Nodup :=
        (Vector.swap_perm _ _).toList.nodup_iff.mpr hdistinct
      rw [ih (Nat.lt_of_succ_lt h) hswapped hothers heq]

/-- The item that is wanted at the top position is at this one or a lesser one, if the greater ones
are as they are to be. -/
theorem exists_wanted {top : Nat} (h : top < n) {items order : Vector α n}
    (hdistinct : items.toList.Nodup) (hperm : order.toList.Perm items.toList)
    (habove : ∀ index (hindex : index < n), top < index → order[index] = items[index]) :
    ∃ pick, ∃ hle : pick ≤ top, items[pick] = order[top] := by
  have horder : order.toList.Nodup := hperm.nodup_iff.mpr hdistinct
  have hmem : order[top] ∈ items.toList :=
    hperm.mem_iff.mp (Vector.mem_toList_iff.mpr (Vector.getElem_mem h))
  obtain ⟨pick, hpick, heq⟩ := Vector.getElem_of_mem (Vector.mem_toList_iff.mp hmem)
  refine ⟨pick, Nat.le_of_not_lt fun hlt => ?_, heq⟩
  have hplace := eq_of_getElem_eq horder hpick h ((habove pick hpick hlt).trans heq)
  omega

/-- Some choices settle distinct items in any order that leaves the greater positions as they are. -/
theorem exists_settleDown_eq {top : Nat} (h : top < n) {items order : Vector α n}
    (hdistinct : items.toList.Nodup) (hperm : order.toList.Perm items.toList)
    (habove : ∀ index (hindex : index < n), top < index → order[index] = items[index]) :
    ∃ picks, Admissible top picks ∧ (settleDown top h items (Choices.mk picks)).1 = order := by
  obtain ⟨pick, hle, hwanted⟩ := exists_wanted h hdistinct hperm habove
  induction top generalizing items pick with
  | zero =>
    refine ⟨[], .nil, Vector.ext fun index hindex => ?_⟩
    by_cases hzero : index = 0
    · subst hzero
      obtain rfl : pick = 0 := by omega
      exact hwanted
    · exact (habove index hindex (by omega)).symm
  | succ top ih =>
    have hswap : (items.swap (top + 1) pick h (Nat.lt_of_le_of_lt hle h)).Perm items :=
      Vector.swap_perm _ _
    have hswapped := hswap.toList.nodup_iff.mpr hdistinct
    have hkept := hperm.trans hswap.toList.symm
    have hsettled : ∀ index (hindex : index < n), top < index →
        order[index] = (items.swap (top + 1) pick h (Nat.lt_of_le_of_lt hle h))[index] := by
      intro index hindex hlt
      by_cases htop : index = top + 1
      · subst htop
        rw [Vector.getElem_swap_left, hwanted]
      · rw [Vector.getElem_swap_of_ne (by omega) (by omega)]
        exact habove index hindex (by omega)
    have hbelow := Nat.lt_of_succ_lt h
    obtain ⟨next, hnext, hfound⟩ := exists_wanted hbelow hswapped hkept hsettled
    obtain ⟨rest, hrest, heq⟩ := ih hbelow hswapped hkept hsettled next hnext hfound
    refine ⟨pick :: rest, .cons hle hrest, ?_⟩
    rw [settleDown_cons h hle, heq]

end Settle

/-! ## Shuffled lists -/

section Shuffle

open scoped Nat

variable {α : Type} {items : List α}

/-- The items in the order into which choices written down beforehand shuffle them. -/
def shuffledBy (items : List α) (picks : List Nat) : List α := (shuffle items (Choices.mk picks)).1

/-- A list that is not empty is shuffled by settling its positions. -/
theorem shuffle_of_ne_nil {σ : Type} [Chooser σ] (h : items.length - 1 < items.length) (state : σ) :
    shuffle items state =
      ((settleDown (items.length - 1) h ⟨items.toArray, List.size_toArray⟩ state).1.toList,
        (settleDown (items.length - 1) h ⟨items.toArray, List.size_toArray⟩ state).2) := by
  rw [shuffle, dif_pos h]

/-- A list is shuffled by what the chooser picks, and nothing else is asked of it. -/
theorem shuffle_eq_draw {σ : Type} [Chooser σ] (items : List α) (state : σ) :
    shuffle items state =
      (shuffledBy items (draw (items.length - 1) state).1, (draw (items.length - 1) state).2) := by
  cases items with
  | nil => rfl
  | cons first rest =>
    have h : (first :: rest).length - 1 < (first :: rest).length := Nat.lt_succ_self _
    rw [shuffledBy, shuffle_of_ne_nil h, shuffle_of_ne_nil h, settleDown_eq_draw]

/-- Different sequences of choices shuffle distinct items into different orders. -/
theorem injOn_shuffle (hdistinct : items.Nodup) :
    Set.InjOn (shuffledBy items) {picks | Admissible (items.length - 1) picks} := by
  intro first hfirst second hsecond heq
  by_cases h : items.length - 1 < items.length
  · rw [shuffledBy, shuffledBy, shuffle_of_ne_nil h, shuffle_of_ne_nil h] at heq
    have hvector : (Vector.mk items.toArray List.size_toArray).toList.Nodup := hdistinct
    exact eq_of_settleDown_eq h hvector hfirst hsecond (Vector.toList_inj.mp heq)
  · have hzero : items.length - 1 = 0 := by omega
    rw [Set.mem_ofPred_eq, hzero] at hfirst hsecond
    cases hfirst
    cases hsecond
    rfl

/-- Some choices shuffle distinct items into any of their orders. -/
theorem exists_shuffle_eq (hdistinct : items.Nodup) {order : List α} (hperm : order.Perm items) :
    ∃ picks, Admissible (items.length - 1) picks ∧ shuffledBy items picks = order := by
  by_cases h : items.length - 1 < items.length
  · have hvector : (Vector.mk items.toArray List.size_toArray).toList.Nodup := hdistinct
    have hvectors : (Vector.mk order.toArray hperm.length_eq).toList.Perm
        (Vector.mk items.toArray List.size_toArray).toList := hperm
    obtain ⟨picks, hpicks, heq⟩ := exists_settleDown_eq h hvector hvectors
      fun index hindex hlt => by omega
    refine ⟨picks, hpicks, ?_⟩
    rw [shuffledBy, shuffle_of_ne_nil h, heq]
    rfl
  · obtain rfl : items = [] := List.length_eq_zero_iff.mp (by omega)
    exact ⟨[], .nil, hperm.eq_nil.symm⟩

/-- Shuffling is a bijection of the sequences of choices onto the orders of distinct items. -/
theorem bijOn_shuffle (hdistinct : items.Nodup) :
    Set.BijOn (shuffledBy items) {picks | Admissible (items.length - 1) picks}
      {order | order.Perm items} :=
  ⟨fun _ _ => perm_shuffle items _, injOn_shuffle hdistinct,
    fun _ hperm => exists_shuffle_eq hdistinct hperm⟩

/-- Distinct items have as many orders as the factorial of their number says. -/
theorem ncard_perm (hdistinct : items.Nodup) :
    {order : List α | order.Perm items}.ncard = items.length ! := by
  classical
  have hcoe : {order : List α | order.Perm items} = (items.permutations.toFinset : Set (List α)) := by
    ext order
    simp
  rw [hcoe, Set.ncard_coe_finset, List.toFinset_card_of_nodup (List.nodup_permutations items hdistinct),
    List.length_permutations]

/-- Orders of distinct items that begin with given ones go on with an order of the items left. -/
theorem ncard_perm_take (hdistinct : items.Nodup) {count : Nat} {chosen : List α}
    (hchosen : chosen.Nodup) (hsubset : chosen ⊆ items)
    (hlength : chosen.length = min count items.length) :
    {order : List α | order.Perm items ∧ order.take count = chosen}.ncard =
      (items.length - chosen.length) ! := by
  obtain ⟨rest, hrest⟩ : ∃ rest, items.Perm (chosen ++ rest) := by
    obtain ⟨listed, hlisted, hsublist⟩ := List.subperm_of_subset hchosen hsubset
    obtain ⟨rest, hrest⟩ := hsublist.exists_perm_append
    exact ⟨rest, hrest.trans (hlisted.append_right rest)⟩
  have hlengths := hrest.length_eq
  rw [List.length_append] at hlengths
  have himage : {order : List α | order.Perm items ∧ order.take count = chosen} =
      (chosen ++ ·) '' {others : List α | others.Perm rest} := by
    ext order
    constructor
    · rintro ⟨hperm, htake⟩
      refine ⟨order.drop count, ?_, ?_⟩
      · have hsplit := List.take_append_drop count order
        rw [htake] at hsplit
        rw [← hsplit] at hperm
        exact (List.perm_append_left_iff chosen).mp (hperm.trans hrest)
      · dsimp only
        rw [← htake, List.take_append_drop]
    · rintro ⟨others, hothers, rfl⟩
      have hsame := List.Perm.length_eq hothers
      refine ⟨(hothers.append_left chosen).trans hrest.symm, ?_⟩
      by_cases hcount : count ≤ items.length
      · exact List.take_left' (by omega)
      · obtain rfl : others = [] := List.length_eq_zero_iff.mp (by omega)
        dsimp only
        rw [List.append_nil]
        exact List.take_of_length_le (by omega)
  have hrestDistinct : rest.Nodup := (hrest.nodup_iff.mp hdistinct).of_append_right
  rw [himage, Set.ncard_image_of_injective _ fun _ _ => List.append_cancel_left,
    ncard_perm hrestDistinct]
  congr 1
  omega

/-- As many sequences of choices lead to the same first items as there are orders of the others. -/
theorem ncard_take_shuffle (hdistinct : items.Nodup) {count : Nat} {chosen : List α}
    (hchosen : chosen.Nodup) (hsubset : chosen ⊆ items)
    (hlength : chosen.length = min count items.length) :
    {picks | Admissible (items.length - 1) picks ∧
      (shuffledBy items picks).take count = chosen}.ncard = (items.length - chosen.length) ! := by
  have hbij := bijOn_shuffle hdistinct
  have himage : shuffledBy items ''
      {picks | Admissible (items.length - 1) picks ∧ (shuffledBy items picks).take count = chosen} =
      {order : List α | order.Perm items ∧ order.take count = chosen} := by
    ext order
    constructor
    · rintro ⟨picks, ⟨hpicks, htake⟩, rfl⟩
      exact ⟨hbij.mapsTo hpicks, htake⟩
    · rintro ⟨hperm, htake⟩
      obtain ⟨picks, hpicks, rfl⟩ := hbij.surjOn hperm
      exact ⟨picks, ⟨hpicks, htake⟩, rfl⟩
  rw [← ncard_perm_take hdistinct hchosen hsubset hlength, ← himage]
  exact ((hbij.injOn.mono fun _ hmem => hmem.1).ncard_image).symm

/-- Shuffling distinct items makes one choice for each position but the first, whatever the chooser
is, and nothing else. Between the sequences of such choices and the orders of the items it is a
bijection, and there are as many orders as the factorial of their number says. However many of the
shuffled items are taken, each selection of so many of them, in each order, comes of the same number
of sequences, which is the factorial of the number of items left. -/
theorem shuffle_is_unbiased (hdistinct : items.Nodup) :
    (∀ {σ : Type} [Chooser σ] (state : σ),
      Admissible (items.length - 1) (draw (items.length - 1) state).1 ∧
        shuffle items state =
          (shuffledBy items (draw (items.length - 1) state).1, (draw (items.length - 1) state).2)) ∧
      Set.BijOn (shuffledBy items) {picks | Admissible (items.length - 1) picks}
        {order | order.Perm items} ∧
      {order : List α | order.Perm items}.ncard = items.length ! ∧
      ∀ (fanout : Nat) (chosen : List α), chosen.Nodup → chosen ⊆ items →
        chosen.length = min fanout items.length →
        {picks | Admissible (items.length - 1) picks ∧
          (shuffledBy items picks).take fanout = chosen}.ncard =
            (items.length - min fanout items.length) ! := by
  refine ⟨fun state => ⟨admissible_draw _ state, shuffle_eq_draw items state⟩,
    bijOn_shuffle hdistinct, ncard_perm hdistinct, fun fanout chosen hchosen hsubset hlength => ?_⟩
  rw [← hlength]
  exact ncard_take_shuffle hdistinct hchosen hsubset hlength

/-- For three items there are two choices and six orders. Choosing zero and one reverses the items,
one sequence of choices moves the first item to the end, and two sequences bring the second item to the
front. -/
theorem shuffle_is_unbiased_three :
    let items := ["a", "b", "c"]
    items.Nodup ∧ shuffle items (Choices.mk [0, 1]) = (["c", "b", "a"], ⟨[]⟩) ∧
      Admissible 2 (draw 2 (Choices.mk [0, 1])).1 ∧
      (∃! picks, Admissible 2 picks ∧ shuffledBy items picks = ["b", "c", "a"]) ∧
      {order : List String | order.Perm items}.ncard = 6 ∧
      ["b"].Nodup ∧ ["b"] ⊆ items ∧
      {picks | Admissible 2 picks ∧ (shuffledBy items picks).take 1 = ["b"]}.ncard = 2 := by
  intro items
  have hdistinct : items.Nodup := by decide
  obtain ⟨hdraw, hbij, hcount, hselections⟩ := shuffle_is_unbiased hdistinct
  have hunique : ∃! picks, Admissible 2 picks ∧ shuffledBy items picks = ["b", "c", "a"] := by
    have hperm : ["b", "c", "a"].Perm items := by decide
    obtain ⟨picks, hpicks, heq⟩ := hbij.surjOn hperm
    exact ⟨picks, ⟨hpicks, heq⟩, fun other hother =>
      hbij.injOn hother.1 hpicks (hother.2.trans heq.symm)⟩
  have hsingle : ["b"].Nodup := by decide
  have hsubset : ["b"] ⊆ items := by decide
  exact ⟨hdistinct, rfl, (hdraw _).1, hunique, hcount, hsingle, hsubset,
    hselections 1 ["b"] hsingle hsubset rfl⟩

end Shuffle

end Epidemic.Random

namespace Epidemic.Protocol

open Epidemic.Random (Admissible Choices)
open scoped Nat

/-- Every selection of as many candidates as the fanout allows for, in each order, is drawn for the
same number of sequences of choices. -/
theorem ncard_select (fanout : Nat) (maxAge : Option Duration) (listed : List NodeId)
    (excluded : Option NodeId) {chosen : List NodeId} (hchosen : chosen.Nodup)
    (hsubset : chosen ⊆ candidates listed excluded)
    (hlength : chosen.length = min fanout (candidates listed excluded).length) :
    {picks | Admissible ((candidates listed excluded).length - 1) picks ∧
      (select ⟨fanout, maxAge, Choices.mk picks⟩ listed excluded).1 = chosen}.ncard =
        ((candidates listed excluded).length - chosen.length) ! :=
  Random.ncard_take_shuffle (nodup_candidates listed excluded) hchosen hsubset hlength

end Epidemic.Protocol
