import Mathlib.Data.Finmap
import Mathlib.Algebra.BigOperators.Group.Finset

/-!
# Finmap lemmas for the standard library

Go maps are modelled as `Finmap`s over a constant value type. The peer store needs three
things `Mathlib.Data.Finmap` does not provide: `keys` after an `insert`, a `filterMap` over
the values (what a garbage-collection sweep leaves of a map), and a sum of a `Nat`-valued
function over the values together with how `insert` and `erase` change it (the shard
counters are such sums).
-/

namespace Finmap

variable {α β γ : Type*} [DecidableEq α]

theorem keys_insert (a : α) (b : β) (s : Finmap fun _ : α => β) :
    (s.insert a b).keys = Insert.insert a s.keys := by
  ext x; simp [mem_keys, mem_insert]

theorem card_keys_insert (a : α) (b : β) (s : Finmap fun _ : α => β) :
    (s.insert a b).keys.card = if a ∈ s then s.keys.card else s.keys.card + 1 := by
  rw [keys_insert]
  split_ifs with h
  · rw [Finset.insert_eq_of_mem (mem_keys.mpr h)]
  · exact Finset.card_insert_of_not_mem (mem_keys.not.mpr h)

theorem card_keys_erase (a : α) (s : Finmap fun _ : α => β) :
    (s.erase a).keys.card = if a ∈ s then s.keys.card - 1 else s.keys.card := by
  rw [keys_erase]
  split_ifs with h
  · exact Finset.card_erase_of_mem (mem_keys.mpr h)
  · rw [Finset.erase_eq_of_not_mem (mem_keys.not.mpr h)]

/-- Inserting at `a` forgets what `s` held at `a`. -/
theorem insert_erase_self (a : α) (b : β) (s : Finmap fun _ : α => β) :
    (s.erase a).insert a b = s.insert a b :=
  ext_lookup fun x => by
    by_cases h : x = a
    · subst h; simp [lookup_insert]
    · simp [lookup_insert_of_ne _ h, lookup_erase_ne h]

theorem erase_insert_self (a : α) (b : β) (s : Finmap fun _ : α => β) :
    (s.insert a b).erase a = s.erase a :=
  ext_lookup fun x => by
    by_cases h : x = a
    · subst h; simp [lookup_erase]
    · simp [lookup_insert_of_ne _ h, lookup_erase_ne h]

theorem erase_of_not_mem {a : α} {s : Finmap fun _ : α => β} (h : a ∉ s) : s.erase a = s :=
  ext_lookup fun x => by
    by_cases hx : x = a
    · subst hx; rw [lookup_erase, lookup_eq_none.mpr h]
    · rw [lookup_erase_ne hx]

theorem eq_empty_of_card_keys_eq_zero {s : Finmap fun _ : α => β} (h : s.keys.card = 0) :
    s = ∅ :=
  ext_lookup fun x => by
    rw [lookup_empty, lookup_eq_none, ← mem_keys, Finset.card_eq_zero.mp h]
    exact Finset.not_mem_empty x

theorem insert_of_lookup {a : α} {b : β} {s : Finmap fun _ : α => β}
    (h : s.lookup a = some b) : s.insert a b = s :=
  ext_lookup fun x => by
    by_cases hx : x = a
    · subst hx; rw [lookup_insert, h]
    · rw [lookup_insert_of_ne _ hx]

/-! ## Filtering the values -/

/-- Keep the entries on which `f` returns `some`, with the value `f` returns. -/
def filterMapVal (f : β → Option γ) (s : Finmap fun _ : α => β) : Finmap fun _ : α => γ :=
  keysLookupEquiv.symm
    ⟨(s.keys.filter fun a => ((s.lookup a).bind f).isSome, fun a => (s.lookup a).bind f),
      fun a => by
        simp only [Finset.mem_filter, mem_keys, iff_and_self, ← lookup_isSome]
        cases s.lookup a <;> simp⟩

@[simp] theorem lookup_filterMapVal (f : β → Option γ) (s : Finmap fun _ : α => β) (a : α) :
    (s.filterMapVal f).lookup a = (s.lookup a).bind f := by
  simp [filterMapVal]

theorem keys_filterMapVal (f : β → Option γ) (s : Finmap fun _ : α => β) :
    (s.filterMapVal f).keys = s.keys.filter fun a => ((s.lookup a).bind f).isSome := by
  simp [filterMapVal]

/-- Keep the entries whose value satisfies `p`. -/
def filterVal (p : β → Bool) (s : Finmap fun _ : α => β) : Finmap fun _ : α => β :=
  s.filterMapVal fun b => if p b then some b else none

@[simp] theorem lookup_filterVal (p : β → Bool) (s : Finmap fun _ : α => β) (a : α) :
    (s.filterVal p).lookup a = (s.lookup a).filter p := by
  simp only [filterVal, lookup_filterMapVal]
  cases s.lookup a <;> simp [Option.filter]

/-! ## Sums over the values -/

/-- The sum of `f` over the values of `s`. -/
def sumVal (f : β → ℕ) (s : Finmap fun _ : α => β) : ℕ :=
  ∑ a ∈ s.keys, ((s.lookup a).map f).getD 0

@[simp] theorem sumVal_empty (f : β → ℕ) : (∅ : Finmap fun _ : α => β).sumVal f = 0 := by
  simp [sumVal]

theorem sumVal_eq_add_sum_erase (f : β → ℕ) (s : Finmap fun _ : α => β) (a : α) :
    s.sumVal f = ((s.lookup a).map f).getD 0 +
      ∑ x ∈ s.keys.erase a, ((s.lookup x).map f).getD 0 := by
  by_cases h : a ∈ s.keys
  · exact (Finset.add_sum_erase _ _ h).symm
  · rw [mem_keys, ← lookup_eq_none] at h
    rw [h, Finset.erase_eq_of_not_mem (by rwa [mem_keys, ← lookup_eq_none])]
    simp [sumVal]

/-- Inserting at `a` trades the value held at `a` (if any) for the new one. -/
theorem sumVal_insert (f : β → ℕ) (s : Finmap fun _ : α => β) (a : α) (b : β) :
    (s.insert a b).sumVal f + ((s.lookup a).map f).getD 0 = s.sumVal f + f b := by
  have hrest : ∑ x ∈ (s.insert a b).keys.erase a, (((s.insert a b).lookup x).map f).getD 0 =
      ∑ x ∈ s.keys.erase a, ((s.lookup x).map f).getD 0 := by
    rw [keys_insert, Finset.erase_insert_eq_erase]
    exact Finset.sum_congr rfl fun x hx => by
      rw [lookup_insert_of_ne _ (Finset.ne_of_mem_erase hx)]
  rw [sumVal_eq_add_sum_erase f _ a, sumVal_eq_add_sum_erase f s a, hrest, lookup_insert]
  simp only [Option.map_some', Option.getD_some]
  omega

/-- Erasing `a` removes the value held at `a` (if any). -/
theorem sumVal_erase (f : β → ℕ) (s : Finmap fun _ : α => β) (a : α) :
    (s.erase a).sumVal f + ((s.lookup a).map f).getD 0 = s.sumVal f := by
  have hrest : ∑ x ∈ (s.erase a).keys.erase a, (((s.erase a).lookup x).map f).getD 0 =
      ∑ x ∈ s.keys.erase a, ((s.lookup x).map f).getD 0 := by
    rw [keys_erase, Finset.erase_idem]
    exact Finset.sum_congr rfl fun x hx => by
      rw [lookup_erase_ne (Finset.ne_of_mem_erase hx)]
  rw [sumVal_eq_add_sum_erase f _ a, sumVal_eq_add_sum_erase f s a, hrest, lookup_erase]
  simp only [Option.map_none', Option.getD_none]
  omega

theorem sumVal_add (f g : β → ℕ) (s : Finmap fun _ : α => β) :
    s.sumVal f + s.sumVal g = s.sumVal fun b => f b + g b := by
  rw [sumVal, sumVal, sumVal, ← Finset.sum_add_distrib]
  exact Finset.sum_congr rfl fun a _ => by cases s.lookup a <;> rfl

theorem sumVal_filterMapVal (f : β → Option γ) (g : γ → ℕ) (s : Finmap fun _ : α => β) :
    (s.filterMapVal f).sumVal g = s.sumVal fun b => ((f b).map g).getD 0 := by
  rw [sumVal, keys_filterMapVal, Finset.sum_filter, sumVal]
  refine Finset.sum_congr rfl fun a _ => ?_
  rw [lookup_filterMapVal]
  cases s.lookup a with
  | none => rfl
  | some b => cases h : f b <;> simp [h]

end Finmap
