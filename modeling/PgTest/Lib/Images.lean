import Mathlib.Data.Finmap

/-!
# What a finite map holds, as a multiset

`image f s` collects `f key value` over the entries of a finite map.  It is how
a conservation law reads a map: inserting a new key adds one element, erasing a
key takes its element away, and changing a value in a way `f` does not see
changes nothing.
-/

namespace PgTest.Lib

universe u v w

variable {α : Type u} {β : Type v} {γ : Type w} [DecidableEq α]

theorem insert_of_lookup {a : α} {b : β} {s : Finmap (fun _ : α => β)}
    (h : s.lookup a = some b) : s.insert a b = s := by
  refine Finmap.ext_lookup fun x => ?_
  by_cases hx : x = a
  · rw [hx, Finmap.lookup_insert, h]
  · rw [Finmap.lookup_insert_of_ne s hx]

theorem insert_erase {a : α} {b : β} (s : Finmap (fun _ : α => β)) :
    (s.erase a).insert a b = s.insert a b := by
  refine Finmap.ext_lookup fun x => ?_
  by_cases hx : x = a
  · rw [hx, Finmap.lookup_insert, Finmap.lookup_insert]
  · rw [Finmap.lookup_insert_of_ne _ hx, Finmap.lookup_insert_of_ne _ hx, Finmap.lookup_erase_ne hx]

theorem erase_insert {a : α} {b : β} {s : Finmap (fun _ : α => β)} (h : a ∉ s) :
    (s.insert a b).erase a = s := by
  refine Finmap.ext_lookup fun x => ?_
  by_cases hx : x = a
  · rw [hx, Finmap.lookup_erase, Finmap.lookup_eq_none.mpr h]
  · rw [Finmap.lookup_erase_ne hx, Finmap.lookup_insert_of_ne _ hx]

theorem erase_of_notMem {a : α} {s : Finmap (fun _ : α => β)} (h : a ∉ s) : s.erase a = s := by
  refine Finmap.ext_lookup fun x => ?_
  by_cases hx : x = a
  · rw [hx, Finmap.lookup_erase, Finmap.lookup_eq_none.mpr h]
  · rw [Finmap.lookup_erase_ne hx]

theorem lookup_insert_eq_some {a x : α} {b c : β} {s : Finmap (fun _ : α => β)} :
    (s.insert a b).lookup x = some c ↔ x = a ∧ b = c ∨ x ≠ a ∧ s.lookup x = some c := by
  by_cases hx : x = a
  · subst hx
    rw [Finmap.lookup_insert]
    simp
  · rw [Finmap.lookup_insert_of_ne s hx]
    simp [hx]

theorem lookup_erase_eq_some {a x : α} {c : β} {s : Finmap (fun _ : α => β)} :
    (s.erase a).lookup x = some c ↔ x ≠ a ∧ s.lookup x = some c := by
  by_cases hx : x = a
  · subst hx
    rw [Finmap.lookup_erase]
    simp
  · rw [Finmap.lookup_erase_ne hx]
    simp [hx]

theorem mem_of_lookup {a : α} {b : β} {s : Finmap (fun _ : α => β)} (h : s.lookup a = some b) :
    a ∈ s := Finmap.mem_of_lookup_eq_some h

/-! ### Images -/

def image (f : α → β → γ) (s : Finmap (fun _ : α => β)) : Multiset γ :=
  s.entries.map fun e => f e.1 e.2

theorem image_insert {a : α} (b : β) {s : Finmap (fun _ : α => β)} (f : α → β → γ) (h : a ∉ s) :
    image f (s.insert a b) = f a b ::ₘ image f s := by
  rw [image, Finmap.entries_insert_of_notMem h, Multiset.map_cons]
  rfl

theorem image_erase {a : α} {b : β} {s : Finmap (fun _ : α => β)} (f : α → β → γ)
    (h : s.lookup a = some b) : image f s = f a b ::ₘ image f (s.erase a) := by
  rw [← image_insert b f Finmap.notMem_erase_self, insert_erase, insert_of_lookup h]

/-- Changing a value in a way `f` does not see keeps the image. -/
theorem image_update {a : α} {b c : β} {s : Finmap (fun _ : α => β)} (f : α → β → γ)
    (h : s.lookup a = some b) (hf : f a c = f a b) : image f (s.insert a c) = image f s := by
  rw [image_erase f h, ← insert_erase, image_insert c f Finmap.notMem_erase_self, hf]

theorem keys_insert {a : α} (b : β) {s : Finmap (fun _ : α => β)} (h : a ∉ s) :
    (s.insert a b).keys.val = a ::ₘ s.keys.val := image_insert b (fun a _ => a) h

theorem keys_erase {a : α} {s : Finmap (fun _ : α => β)} (h : a ∈ s) :
    s.keys.val = a ::ₘ (s.erase a).keys.val := by
  obtain ⟨b, hb⟩ := Finmap.mem_iff.mp h
  exact image_erase (fun a _ => a) hb

theorem mem_image {f : α → β → γ} {s : Finmap (fun _ : α => β)} {c : γ} :
    c ∈ image f s ↔ ∃ a b, s.lookup a = some b ∧ f a b = c := by
  constructor
  · intro h
    obtain ⟨⟨a, b⟩, he, rfl⟩ := Multiset.mem_map.mp h
    exact ⟨a, b, Finmap.lookup_eq_some_iff.mpr he, rfl⟩
  · rintro ⟨a, b, hl, rfl⟩
    exact Multiset.mem_map.mpr ⟨⟨a, b⟩, Finmap.lookup_eq_some_iff.mp hl, rfl⟩

end PgTest.Lib
