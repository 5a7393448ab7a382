import Mathlib.Algebra.Notation.Defs
import Mathlib.Data.Finset.Card
import Mathlib.Logic.Function.Basic
import AppUtil.Lib.Lists

/-! # Seats

A table gives each seat a name, and `0` to a free one. Of a list of parties each sits on a seat and
has a name, or has left; `view` says which. The table is right when every seat in `R` bears the name
of the one that sits there: `Seated`. -/
namespace AppUtil.Lib
set_option autoImplicit false

variable {α κ τ : Type} [Zero τ]

structure Seated (R : Finset κ) (name : κ → τ) (view : α → Option (κ × τ)) (as : List α) : Prop where
  sits : ∀ (j : ℕ) a, as[j]? = some a → ∀ i t, view a = some (i, t) → i ∈ R ∧ name i = t ∧ t ≠ 0
  distinct : ∀ (j k : ℕ) a b i i' t, as[j]? = some a → as[k]? = some b → view a = some (i, t) →
    view b = some (i', t) → j = k
  taken : ∀ i ∈ R, name i ≠ 0 → ∃ (j : ℕ) (a : α), as[j]? = some a ∧ view a = some (i, name i)

namespace Seated

variable {R : Finset κ} {name name' : κ → τ} {view : α → Option (κ × τ)} {as : List α}
  {j k : ℕ} {a a' b : α} {i i' : κ} {t : τ}

theorem empty : Seated R (fun _ => 0) view ([] : List α) :=
  ⟨fun _ _ hj => (nomatch hj), fun _ _ _ _ _ _ _ hj => (nomatch hj), fun _ _ h => absurd rfl h⟩

theorem seat_unique (h : Seated R name view as) (hj : as[j]? = some a) (hv : view a = some (i, t))
    (hi : i' ∈ R) (hn : name i' = t) : i' = i := by
  obtain ⟨-, -, ht⟩ := h.sits j a hj i t hv
  obtain ⟨k, b, hk, hb⟩ := h.taken i' hi (by rw [hn]; exact ht)
  rw [hn] at hb
  obtain rfl := h.distinct j k a b i i' t hj hk hv hb
  obtain rfl : a = b := Option.some.inj (hj.symm.trans hk)
  exact (congrArg Prod.fst (Option.some.inj (hb.symm.trans hv)))

theorem party_unique (h : Seated R name view as) (hj : as[j]? = some a) (hk : as[k]? = some b)
    {t' : τ} (ha : view a = some (i, t)) (hb : view b = some (i, t')) : j = k := by
  obtain ⟨-, rfl, -⟩ := h.sits j a hj i t ha
  obtain ⟨-, rfl, -⟩ := h.sits k b hk i t' hb
  exact h.distinct j k a b i i (name i) hj hk ha hb

theorem congr (h : Seated R name view as) (hn : ∀ i ∈ R, name' i = name i) :
    Seated R name' view as := by
  refine ⟨fun j a hj i t hv => ?_, h.distinct, fun i hi h0 => ?_⟩
  · obtain ⟨hi, hname, ht⟩ := h.sits j a hj i t hv
    exact ⟨hi, (hn i hi).trans hname, ht⟩
  · rw [hn i hi] at h0 ⊢
    exact h.taken i hi h0

/-- A party that keeps its seat and its name. -/
theorem keep (h : Seated R name view as) (hj : as[j]? = some a) (hv : view a' = view a) :
    Seated R name view (as.set j a') := by
  constructor
  · refine forall_set (fun k b _ hk => h.sits k b hk) fun i t ha => ?_
    exact h.sits j a hj i t (hv ▸ ha)
  · intro k l b c i i' t hk hl hb hc
    have hback : ∀ (k : ℕ) b, (as.set j a')[k]? = some b → ∃ b', as[k]? = some b' ∧ view b' = view b :=
      forall_set (fun k b _ hk => ⟨b, hk, rfl⟩) ⟨a, hj, hv.symm⟩
    obtain ⟨b', hb', hvb⟩ := hback k b hk
    obtain ⟨c', hc', hvc⟩ := hback l c hl
    exact h.distinct k l b' c' i i' t hb' hc' (hvb.trans hb) (hvc.trans hc)
  · intro i hi h0
    exact exists_set hj (fun ha => hv.trans ha) (h.taken i hi h0)

/-- A party that leaves and frees its seat. -/
theorem leave [DecidableEq κ] (h : Seated R name view as) (hj : as[j]? = some a)
    (hv : view a = some (i, t)) (hv' : view a' = none) :
    Seated R (Function.update name i 0) view (as.set j a') := by
  have hback : ∀ (k : ℕ) b, (as.set j a')[k]? = some b → ∀ i' t', view b = some (i', t') →
      k ≠ j ∧ as[k]? = some b := by
    refine forall_set (fun k b hkj hk _ _ _ => ⟨hkj, hk⟩) fun i' t' ha => ?_
    rw [hv'] at ha
    cases ha
  constructor
  · intro k b hk i' t' hb
    obtain ⟨hkj, hk⟩ := hback k b hk i' t' hb
    obtain ⟨hi, hname, ht⟩ := h.sits k b hk i' t' hb
    have hne : i' ≠ i := by
      rintro rfl
      exact hkj (h.party_unique hk hj hb hv)
    rw [Function.update_of_ne hne]
    exact ⟨hi, hname, ht⟩
  · intro k l b c i₁ i₂ t' hk hl hb hc
    exact h.distinct k l b c i₁ i₂ t' (hback k b hk i₁ t' hb).2 (hback l c hl i₂ t' hc).2 hb hc
  · intro i' hi' h0
    by_cases hne : i' = i
    · subst hne
      rw [Function.update_self] at h0
      exact absurd rfl h0
    · rw [Function.update_of_ne hne] at h0 ⊢
      refine exists_set hj (fun ha => ?_) (h.taken i' hi' h0)
      rw [hv] at ha
      exact absurd (congrArg Prod.fst (Option.some.inj ha)).symm hne

/-- A new party that takes a free seat under a name of its own. -/
theorem enter [DecidableEq κ] (h : Seated R name view as) (hi : i ∈ R) (hfree : name i = 0)
    (ht : t ≠ 0) (hnew : ∀ b ∈ as, ∀ i', view b ≠ some (i', t)) (hv : view a = some (i, t)) :
    Seated R (Function.update name i t) view (as ++ [a]) := by
  constructor
  · intro k b hk i' t' hb
    rcases getElem?_concat_cases hk with hk | ⟨-, rfl⟩
    · obtain ⟨hi', hname, ht'⟩ := h.sits k b hk i' t' hb
      have hne : i' ≠ i := by
        rintro rfl
        exact ht' (hname.symm.trans hfree)
      rw [Function.update_of_ne hne]
      exact ⟨hi', hname, ht'⟩
    · obtain ⟨rfl, rfl⟩ := Prod.mk.inj (Option.some.inj (hv.symm.trans hb))
      exact ⟨hi, Function.update_self .., ht⟩
  · intro k l b c i₁ i₂ t' hk hl hb hc
    rcases getElem?_concat_cases hk with hk' | ⟨rfl, rfl⟩ <;>
      rcases getElem?_concat_cases hl with hl' | ⟨rfl, rfl⟩
    · exact h.distinct k l b c i₁ i₂ t' hk' hl' hb hc
    · obtain ⟨-, rfl⟩ := Prod.mk.inj (Option.some.inj (hv.symm.trans hc))
      exact absurd hb (hnew b (List.mem_of_getElem? hk') i₁)
    · obtain ⟨-, rfl⟩ := Prod.mk.inj (Option.some.inj (hv.symm.trans hb))
      exact absurd hc (hnew c (List.mem_of_getElem? hl') i₂)
    · rfl
  · intro i' hi' h0
    by_cases hne : i' = i
    · subst hne
      rw [Function.update_self]
      exact ⟨as.length, a, List.getElem?_concat_length, hv⟩
    · rw [Function.update_of_ne hne] at h0 ⊢
      obtain ⟨k, b, hk, hb⟩ := h.taken i' hi' h0
      exact ⟨k, b, getElem?_concat_of_some hk, hb⟩

/-! ## How many sit -/

/-- The seats of the parties that sit, in the order of the parties. -/
def seats (view : α → Option (κ × τ)) (as : List α) : List κ :=
  as.filterMap fun a => (view a).map Prod.fst

omit [Zero τ] in
theorem length_seats : (seats view as).length = as.countP fun a => (view a).isSome := by
  simp [seats, List.length_filterMap_eq_countP]

theorem seats_nodup (h : Seated R name view as) : (seats view as).Nodup := by
  rw [seats, List.Nodup, List.pairwise_filterMap, List.pairwise_iff_getElem]
  intro j k hj hk hjk i hi i' hi' heq
  subst heq
  obtain ⟨⟨i₁, t⟩, hv, hi₁⟩ := Option.map_eq_some_iff.mp hi
  obtain ⟨⟨i₂, t'⟩, hv', hi₂⟩ := Option.map_eq_some_iff.mp hi'
  obtain rfl : i₁ = i₂ := hi₁.trans hi₂.symm
  have := h.party_unique (List.getElem?_eq_getElem hj) (List.getElem?_eq_getElem hk) hv hv'
  omega

omit [Zero τ] in
theorem mem_seats : i ∈ seats view as ↔ ∃ (j : ℕ) (a : α) (t : τ), as[j]? = some a ∧ view a = some (i, t) := by
  rw [seats, List.mem_filterMap]
  constructor
  · rintro ⟨a, ha, hi⟩
    obtain ⟨j, hj⟩ := List.mem_iff_getElem?.mp ha
    obtain ⟨⟨i₁, t⟩, hv, hi₁⟩ := Option.map_eq_some_iff.mp hi
    exact ⟨j, a, t, hj, hi₁ ▸ hv⟩
  · rintro ⟨j, a, t, hj, hv⟩
    exact ⟨a, List.mem_of_getElem? hj, Option.map_eq_some_iff.mpr ⟨(i, t), hv, rfl⟩⟩

/-- No more sit than there are seats. -/
theorem countP_le (h : Seated R name view as) : as.countP (fun a => (view a).isSome) ≤ R.card := by
  classical
  rw [← length_seats, ← List.toFinset_card_of_nodup h.seats_nodup]
  refine Finset.card_le_card fun i hi => ?_
  obtain ⟨j, a, t, hj, hv⟩ := mem_seats.mp (List.mem_toFinset.mp hi)
  exact (h.sits j a hj i t hv).1

/-- At least as many sit as there are seats known to be taken. -/
theorem le_countP (h : Seated R name view as) {S : Finset κ} (hS : S ⊆ R)
    (htaken : ∀ i ∈ S, name i ≠ 0) : S.card ≤ as.countP fun a => (view a).isSome := by
  classical
  rw [← length_seats, ← List.toFinset_card_of_nodup h.seats_nodup]
  refine Finset.card_le_card fun i hi => ?_
  obtain ⟨j, a, hj, hv⟩ := h.taken i (hS hi) (htaken i hi)
  exact List.mem_toFinset.mpr (mem_seats.mpr ⟨j, a, name i, hj, hv⟩)

end Seated

end AppUtil.Lib
