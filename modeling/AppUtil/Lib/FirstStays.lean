import Mathlib.Tactic.Common
import Mathlib.Data.List.Basic
import Mathlib.Data.List.Nodup

/-! # Maps in which the first stays

Entries are put into an ordered map in turn, each where its key is new, so that of the entries with one
key the first stays. The map is then searched for a value, in the order of the keys. -/
namespace AppUtil.Lib.FirstStays
open Std (TreeMap TransCmp LawfulEqCmp)
set_option autoImplicit false

variable {κ υ : Type} {cmp : κ → κ → Ordering}

def insertAll (m : TreeMap κ υ cmp) : List (κ × υ) → TreeMap κ υ cmp
  | [] => m
  | e :: entries => insertAll (m.insertIfNew e.1 e.2) entries

/-- The first key with the value. -/
def keyOf [DecidableEq υ] (m : TreeMap κ υ cmp) (v : υ) : Option κ :=
  (m.toList.find? fun e => e.2 = v).map Prod.fst

variable [TransCmp cmp] [LawfulEqCmp cmp] {m : TreeMap κ υ cmp} {k : κ} {v : υ}

theorem getElem?_insertAll [DecidableEq κ] (m : TreeMap κ υ cmp) (entries : List (κ × υ)) (k : κ) :
    (insertAll m entries)[k]? = m[k]?.or ((entries.find? fun e => e.1 = k).map Prod.snd) := by
  induction entries generalizing m with
  | nil => rw [insertAll, List.find?_nil, Option.map_none, Option.or_none]
  | cons e entries ih =>
    rw [insertAll, ih, TreeMap.getElem?_insertIfNew, List.find?_cons]
    by_cases hk : e.1 = k
    · subst hk
      by_cases hmem : e.1 ∈ m
      · -- the key is taken
        rw [if_neg fun h => h.2 hmem, TreeMap.getElem?_eq_some_getElem hmem, Option.some_or, Option.some_or]
      · rw [if_pos ⟨Std.ReflCmp.compare_self, hmem⟩, TreeMap.getElem?_eq_none hmem, decide_eq_true rfl]
        rfl
    · rw [if_neg fun h => hk (LawfulEqCmp.eq_of_compare h.1), decide_eq_false hk]

/-- With no key twice every entry stays. -/
theorem getElem?_insertAll_eq_some_iff [DecidableEq κ] {entries : List (κ × υ)}
    (h : (entries.map Prod.fst).Nodup) :
    (insertAll (∅ : TreeMap κ υ cmp) entries)[k]? = some v ↔ (k, v) ∈ entries := by
  rw [getElem?_insertAll, TreeMap.getElem?_emptyc, Option.none_or, Option.map_eq_some_iff]
  constructor
  · rintro ⟨e, hfind, rfl⟩
    have hk : e.1 = k := by simpa using List.find?_some hfind
    rw [← hk]
    exact List.mem_of_find?_eq_some hfind
  · intro hmem
    have hsome : (entries.find? fun e => e.1 = k).isSome := by
      rw [List.find?_isSome]
      exact ⟨(k, v), hmem, by simp⟩
    obtain ⟨e, hfind⟩ := Option.isSome_iff_exists.mp hsome
    have hk : e.1 = k := by simpa using List.find?_some hfind
    have he : e = (k, v) := List.inj_on_of_nodup_map h (List.mem_of_find?_eq_some hfind) hmem hk
    exact ⟨e, hfind, congrArg Prod.snd he⟩

variable [DecidableEq υ]

theorem getElem?_of_keyOf (h : keyOf m v = some k) : m[k]? = some v := by
  unfold keyOf at h
  obtain ⟨⟨k', v'⟩, hfind, rfl⟩ := Option.map_eq_some_iff.mp h
  have hv : v' = v := by simpa using List.find?_some hfind
  subst hv
  exact TreeMap.mem_toList_iff_getElem?_eq_some.mp (List.mem_of_find?_eq_some hfind)

theorem exists_keyOf (h : m[k]? = some v) : ∃ k', keyOf m v = some k' := by
  unfold keyOf
  have hmem := TreeMap.mem_toList_iff_getElem?_eq_some.mpr h
  cases hfind : m.toList.find? fun e => e.2 = v with
  | none =>
    have hne := List.find?_eq_none.mp hfind (k, v) hmem
    exact absurd (decide_eq_true rfl) hne
  | some e => exact ⟨e.1, rfl⟩

theorem keyOf_eq_some (h : m[k]? = some v) (honce : ∀ k', m[k']? = some v → k' = k) :
    keyOf m v = some k := by
  obtain ⟨k', hk'⟩ := exists_keyOf h
  rw [hk', honce k' (getElem?_of_keyOf hk')]

/-- Where the map is searched from its least key on. -/
theorem keyOf_least {k' : κ} (h : keyOf m v = some k) (hk' : m[k']? = some v) : cmp k k' ≠ .gt := by
  unfold keyOf at h
  obtain ⟨e, hfind, rfl⟩ := Option.map_eq_some_iff.mp h
  obtain ⟨-, earlier, later, hlist, hnone⟩ := List.find?_eq_some_iff_append.mp hfind
  have hsorted := TreeMap.ordered_keys_toList (t := m)
  have hmem := TreeMap.mem_toList_iff_getElem?_eq_some.mpr hk'
  rw [hlist] at hsorted hmem
  cases List.mem_append.mp hmem with
  | inl hearlier =>
    have hne := hnone (k', v) hearlier
    simp at hne
  | inr hmem =>
    cases List.mem_cons.mp hmem with
    | inl heq =>
      have hself : cmp k' k' = .eq := Std.ReflCmp.compare_self
      rw [← heq]
      show cmp k' k' ≠ .gt
      rw [hself]
      exact nofun
    | inr hlater =>
      have hlt := (List.pairwise_cons.mp (List.pairwise_append.mp hsorted).2.1).1 (k', v) hlater
      rw [hlt]
      exact nofun

end AppUtil.Lib.FirstStays
