import Mathlib.Data.List.Basic

/-!
# First come, first served

A queue of groups and a queue of items are matched from their fronts.  Each
group in turn is looked at with the first item that is left: it passes, it is
drawn a ticket and refuses the item, or it is drawn a ticket and takes the item.
The item that was refused stays in front, for the next group.  The matching ends
with either queue.

The verdict may depend on the ticket and the item, so a group is not acceptable
or unacceptable as such.  Where it is, the matching is the queue of the
acceptable groups, zipped with the items (`serve_zip`).

`ahead` is the part of a queue that stands before somebody.  It only shrinks while
others come behind, leave, or are called from the front.
-/

namespace PgTest.Lib

universe u v

variable {α : Type u} {β : Type v}

/-- What a group makes of a ticket and an item. -/
inductive Verdict
  | passes
  | refuses
  | takes
  deriving DecidableEq

/-- A group with the ticket it was drawn and the item it took. -/
structure Match (α : Type u) (β : Type v) where
  group : α
  ticket : Nat
  item : β

/-- What a matching comes to: the matches, and what is left. -/
structure Matching (α : Type u) (β : Type v) where
  matched : List (Match α β)
  waiting : List α
  items : List β
  tickets : Nat

/-- The matching of a queue with items, where `tickets` were drawn before. -/
def serve (verdict : Nat → α → β → Verdict) : Nat → List α → List β → Matching α β
  | tickets, [], items => ⟨[], [], items, tickets⟩
  | tickets, group :: queue, [] => ⟨[], group :: queue, [], tickets⟩
  | tickets, group :: queue, item :: items =>
    match verdict tickets group item with
    | .passes => serve verdict tickets queue (item :: items)
    | .refuses => serve verdict (tickets + 1) queue (item :: items)
    | .takes =>
      let rest := serve verdict (tickets + 1) queue items
      { rest with matched := ⟨group, tickets, item⟩ :: rest.matched }

section Equations

variable {verdict : Nat → α → β → Verdict} {tickets : Nat} {group : α} {queue : List α}
  {item : β} {items : List β}

@[simp] theorem serve_nil_queue (verdict : Nat → α → β → Verdict) (tickets : Nat)
    (items : List β) : serve verdict tickets [] items = ⟨[], [], items, tickets⟩ := by
  rw [serve]

@[simp] theorem serve_nil_items (verdict : Nat → α → β → Verdict) (tickets : Nat)
    (queue : List α) : serve verdict tickets queue [] = ⟨[], queue, [], tickets⟩ := by
  cases queue with
  | nil => rw [serve]
  | cons group queue => rw [serve]

theorem serve_passes (h : verdict tickets group item = .passes) :
    serve verdict tickets (group :: queue) (item :: items) =
      serve verdict tickets queue (item :: items) := by
  rw [serve, h]

theorem serve_refuses (h : verdict tickets group item = .refuses) :
    serve verdict tickets (group :: queue) (item :: items) =
      serve verdict (tickets + 1) queue (item :: items) := by
  rw [serve, h]

theorem serve_takes (h : verdict tickets group item = .takes) :
    serve verdict tickets (group :: queue) (item :: items) =
      { serve verdict (tickets + 1) queue items with
        matched := ⟨group, tickets, item⟩ ::
          (serve verdict (tickets + 1) queue items).matched } := by
  rw [serve, h]

end Equations

/-! ### What a matching does -/

variable (verdict : Nat → α → β → Verdict)

/-- **The items are taken from the front**, and what is left keeps its order. -/
theorem serve_items : ∀ (queue : List α) (items : List β) (tickets : Nat),
    items = (serve verdict tickets queue items).matched.map Match.item ++
      (serve verdict tickets queue items).items := by
  intro queue
  induction queue with
  | nil => intro items tickets; rw [serve_nil_queue]; rfl
  | cons group queue ih =>
    intro items tickets
    cases items with
    | nil => rw [serve_nil_items]; rfl
    | cons item items =>
      cases h : verdict tickets group item with
      | passes => rw [serve_passes h]; exact ih _ _
      | refuses => rw [serve_refuses h]; exact ih _ _
      | takes =>
        rw [serve_takes h]
        exact congrArg (item :: ·) (ih items (tickets + 1))

/-- **The groups that were met come before those that wait**, and the matched
ones are among them in their order.  Where the items ran out, the last group
that was met took the last item. -/
theorem serve_queue : ∀ (queue : List α) (items : List β) (tickets : Nat),
    ∃ met, queue = met ++ (serve verdict tickets queue items).waiting ∧
      ((serve verdict tickets queue items).matched.map Match.group).Sublist met ∧
      ((serve verdict tickets queue items).items = [] → met.getLast? =
        ((serve verdict tickets queue items).matched.map Match.group).getLast?) := by
  intro queue
  induction queue with
  | nil =>
    intro items tickets
    rw [serve_nil_queue]
    exact ⟨[], rfl, List.Sublist.refl _, fun _ => rfl⟩
  | cons group queue ih =>
    intro items tickets
    cases items with
    | nil =>
      rw [serve_nil_items]
      exact ⟨[], rfl, List.Sublist.refl _, fun _ => rfl⟩
    | cons item items =>
      -- a group that took nothing was met while an item was left
      have skipped : ∀ tickets', ∃ met,
          group :: queue = met ++ (serve verdict tickets' queue (item :: items)).waiting ∧
          ((serve verdict tickets' queue (item :: items)).matched.map Match.group).Sublist met ∧
          ((serve verdict tickets' queue (item :: items)).items = [] → met.getLast? =
            ((serve verdict tickets' queue (item :: items)).matched.map
              Match.group).getLast?) := by
        intro tickets'
        obtain ⟨met, hq, hs, hl⟩ := ih (item :: items) tickets'
        refine ⟨group :: met, congrArg (group :: ·) hq, hs.cons group, fun hn => ?_⟩
        have hitems := serve_items verdict queue (item :: items) tickets'
        rw [hn, List.append_nil] at hitems
        have hmet : met ≠ [] := by
          rintro rfl
          have hnone := List.map_eq_nil_iff.mp (List.sublist_nil.mp hs)
          rw [hnone] at hitems
          cases hitems
        rw [← hl hn, List.getLast?_cons]
        cases hlast : met.getLast? with
        | none => exact absurd (List.getLast?_eq_none_iff.mp hlast) hmet
        | some last => rfl
      cases h : verdict tickets group item with
      | passes => rw [serve_passes h]; exact skipped tickets
      | refuses => rw [serve_refuses h]; exact skipped (tickets + 1)
      | takes =>
        rw [serve_takes h]
        obtain ⟨met, hq, hs, hl⟩ := ih items (tickets + 1)
        refine ⟨group :: met, congrArg (group :: ·) hq, hs.cons_cons group, fun hn => ?_⟩
        rw [List.getLast?_cons, hl hn, List.map_cons, List.getLast?_cons]

/-- **The matching ends with either queue.** -/
theorem serve_exhausts : ∀ (queue : List α) (items : List β) (tickets : Nat),
    (serve verdict tickets queue items).waiting = [] ∨
      (serve verdict tickets queue items).items = [] := by
  intro queue
  induction queue with
  | nil => intro items tickets; rw [serve_nil_queue]; exact Or.inl rfl
  | cons group queue ih =>
    intro items tickets
    cases items with
    | nil => rw [serve_nil_items]; exact Or.inr rfl
    | cons item items =>
      cases h : verdict tickets group item with
      | passes => rw [serve_passes h]; exact ih _ _
      | refuses => rw [serve_refuses h]; exact ih _ _
      | takes => rw [serve_takes h]; exact ih _ _

/-- **Where a group is acceptable as such**, the matching zips the acceptable
groups with the items. -/
theorem serve_zip {acceptable : α → Bool}
    (h : ∀ tickets group item, verdict tickets group item = .takes ↔ acceptable group = true) :
    ∀ (queue : List α) (items : List β) (tickets : Nat),
      (serve verdict tickets queue items).matched.map (fun m => (m.group, m.item)) =
        (queue.filter acceptable).zip items := by
  intro queue
  induction queue with
  | nil => intro items tickets; rw [serve_nil_queue]; rfl
  | cons group queue ih =>
    intro items tickets
    cases items with
    | nil => rw [serve_nil_items, List.zip_nil_right]; rfl
    | cons item items =>
      have hg := h tickets group item
      cases hv : verdict tickets group item with
      | passes =>
        rw [serve_passes hv, List.filter_cons_of_neg fun ha => by cases hv.symm.trans (hg.mpr ha)]
        exact ih _ _
      | refuses =>
        rw [serve_refuses hv, List.filter_cons_of_neg fun ha => by cases hv.symm.trans (hg.mpr ha)]
        exact ih _ _
      | takes =>
        rw [serve_takes hv, List.filter_cons_of_pos (hg.mp hv), List.map_cons, List.zip_cons_cons,
          ← ih items (tickets + 1)]

/-- **A group that was met** took an item, or did not want one. -/
theorem serve_met {group : α} : ∀ {queue : List α} {items : List β} {tickets : Nat},
    group ∈ queue → group ∉ (serve verdict tickets queue items).waiting →
    ∃ item ∈ items, (∃ m ∈ (serve verdict tickets queue items).matched, m.group = group) ∨
      ∃ ticket, verdict ticket group item ≠ .takes := by
  intro queue
  induction queue with
  | nil => intro items tickets hq _; simp at hq
  | cons head queue ih =>
    intro items tickets hq hw
    cases items with
    | nil =>
      rw [serve_nil_items] at hw
      exact absurd hq hw
    | cons item items =>
      rcases List.mem_cons.mp hq with rfl | hq
      · refine ⟨item, List.mem_cons_self, ?_⟩
        cases h : verdict tickets group item with
        | passes => exact Or.inr ⟨tickets, by simp [h]⟩
        | refuses => exact Or.inr ⟨tickets, by simp [h]⟩
        | takes =>
          rw [serve_takes h]
          exact Or.inl ⟨_, List.mem_cons_self, rfl⟩
      · cases h : verdict tickets head item with
        | passes =>
          rw [serve_passes h] at hw ⊢
          exact ih hq hw
        | refuses =>
          rw [serve_refuses h] at hw ⊢
          exact ih hq hw
        | takes =>
          rw [serve_takes h] at hw ⊢
          obtain ⟨other, ho, hm⟩ := ih hq hw
          refine ⟨other, List.mem_cons_of_mem _ ho, hm.imp_left ?_⟩
          rintro ⟨m, hm, hg⟩
          exact ⟨m, List.mem_cons_of_mem _ hm, hg⟩

/-! ### The place in a queue -/

section Place

variable [DecidableEq α] {a : α} {l l' : List α}

/-- What comes before `a`. -/
def ahead (a : α) (l : List α) : List α := l.takeWhile (· ≠ a)

@[simp] theorem ahead_nil (a : α) : ahead a [] = [] := rfl

@[simp] theorem ahead_cons_self (a : α) (l : List α) : ahead a (a :: l) = [] := by
  simp [ahead]

theorem ahead_cons_ne {b : α} (h : b ≠ a) : ahead a (b :: l) = b :: ahead a l := by
  simp [ahead, h]

theorem notMem_ahead (a : α) (l : List α) : a ∉ ahead a l := by
  induction l with
  | nil => simp
  | cons b l ih =>
    by_cases hb : b = a
    · subst hb
      simp
    · rw [ahead_cons_ne hb, List.mem_cons, not_or]
      exact ⟨Ne.symm hb, ih⟩

/-- Who comes later stands behind. -/
theorem ahead_append_of_mem (h : a ∈ l) (l' : List α) : ahead a (l ++ l') = ahead a l := by
  induction l with
  | nil => simp at h
  | cons b l ih =>
    by_cases hb : b = a
    · subst hb
      simp
    · have hl : a ∈ l := (List.mem_cons.mp h).resolve_left fun he => hb he.symm
      rw [List.cons_append, ahead_cons_ne hb, ahead_cons_ne hb, ih hl]

/-- Who leaves in front was ahead. -/
theorem ahead_append_of_notMem (h : a ∉ l) (l' : List α) :
    ahead a (l ++ l') = l ++ ahead a l' := by
  induction l with
  | nil => rfl
  | cons b l ih =>
    rw [List.mem_cons, not_or] at h
    rw [List.cons_append, ahead_cons_ne (Ne.symm h.1), ih h.2, List.cons_append]

theorem ahead_filter {b : α} (hb : b ≠ a) (l : List α) :
    ahead a (l.filter (· ≠ b)) = (ahead a l).filter (· ≠ b) := by
  induction l with
  | nil => rfl
  | cons c l ih =>
    by_cases hc : c = a
    · subst hc
      simp [hb.symm]
    · by_cases hcb : c = b
      · subst hcb
        simpa [ahead_cons_ne hc] using ih
      · rw [List.filter_cons_of_pos (by simp [hcb]), ahead_cons_ne hc, ahead_cons_ne hc,
          List.filter_cons_of_pos (by simp [hcb]), ih]

/-- Who is called before `a`, out of a queue and in its order, stands before `a` there. -/
theorem ahead_sublist (h : l.Sublist l') (hnd : l'.Nodup) (ha : a ∈ l) :
    (ahead a l).Sublist (ahead a l') := by
  induction h with
  | slnil => exact List.Sublist.refl _
  | cons b h ih =>
    rw [List.nodup_cons] at hnd
    have hb : b ≠ a := by
      rintro rfl
      exact hnd.1 (h.subset ha)
    rw [ahead_cons_ne hb]
    exact (ih hnd.2 ha).cons b
  | cons_cons b h ih =>
    rw [List.nodup_cons] at hnd
    by_cases hb : b = a
    · subst hb
      simp
    · rw [ahead_cons_ne hb, ahead_cons_ne hb]
      have hl := (List.mem_cons.mp ha).resolve_left fun he => hb he.symm
      exact (ih hnd.2 hl).cons_cons b

end Place

end PgTest.Lib
