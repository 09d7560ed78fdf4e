import PgTest.Engine.Message

/-!
# The database field of a connection

`parse_connection_field` of `connection.rs`: the database and the lease that a client
connects to.
-/

namespace PgTest.Wire

open PgTest.Engine

/-- `str::split_once` of a character. -/
def splitOnce (c : Char) : List Char → Option (List Char × List Char)
  | [] => none
  | d :: s => if d = c then some ([], s) else (splitOnce c s).map fun x => (d :: x.1, x.2)

inductive ConnectionFieldError
  | invalidFormat
  | invalidLeaseId
  deriving DecidableEq, Repr

def parseConnectionField (input : String) : Except ConnectionFieldError (String × LeaseId) :=
  match splitOnce '/' input.toList with
  | none => .error .invalidFormat
  | some (database, lease) =>
    if database.isEmpty || lease.contains '/' then .error .invalidFormat
    else
      match LeaseId.new (String.ofList lease) with
      | .error _ => .error .invalidLeaseId
      | .ok lease => .ok (String.ofList database, lease)

theorem splitOnce_iff {c : Char} {input before after : List Char} :
    splitOnce c input = some (before, after) ↔ input = before ++ c :: after ∧ c ∉ before := by
  induction input generalizing before with
  | nil => simp [splitOnce]
  | cons d input ih =>
    rw [splitOnce]
    by_cases hd : d = c
    · rw [if_pos hd]
      constructor
      · intro h
        cases h
        exact ⟨by rw [hd, List.nil_append], List.not_mem_nil⟩
      · rintro ⟨h, hc⟩
        cases before with
        | nil =>
          cases h
          rfl
        | cons e before =>
          injection h with h _
          exact absurd (h ▸ hd ▸ List.mem_cons_self) hc
    · rw [if_neg hd, Option.map_eq_some_iff]
      constructor
      · rintro ⟨⟨before, after⟩, h, heq⟩
        cases heq
        obtain ⟨rfl, hc⟩ := ih.mp h
        refine ⟨rfl, fun hm => ?_⟩
        rcases List.mem_cons.mp hm with hm | hm
        · exact hd hm.symm
        · exact hc hm
      · rintro ⟨h, hc⟩
        cases before with
        | nil =>
          injection h with h _
          exact absurd h hd
        | cons e before =>
          injection h with h1 h2
          refine ⟨(before, after), ih.mpr ⟨h2, fun hm => hc (List.mem_cons_of_mem _ hm)⟩, ?_⟩
          rw [h1]

/-- An identifier is made of its own text. -/
theorem new_value (lease : LeaseId) : LeaseId.new lease.value = .ok lease := by
  rw [LeaseId.new, dif_pos lease.valid]

theorem value_of_new {value : String} {lease : LeaseId} (h : LeaseId.new value = .ok lease) :
    lease.value = value := by
  rw [LeaseId.new] at h
  split at h <;> cases h
  rfl

/-- **What a field says.**  It is the database, a slash, and the lease. -/
theorem parseConnectionField_iff {input database : String} {lease : LeaseId} :
    parseConnectionField input = .ok (database, lease) ↔
      input.toList = database.toList ++ '/' :: lease.value.toList ∧ database ≠ "" ∧
        '/' ∉ database.toList := by
  constructor
  · intro h
    rw [parseConnectionField] at h
    split at h
    case h_1 => cases h
    case h_2 before after hsplit =>
      split at h
      case isTrue => cases h
      case isFalse hempty =>
        split at h
        case h_1 => cases h
        case h_2 hnew =>
          cases h
          obtain ⟨hinput, hslash⟩ := splitOnce_iff.mp hsplit
          rw [value_of_new hnew, String.toList_ofList, String.toList_ofList]
          refine ⟨hinput, fun hnone => hempty ?_, hslash⟩
          simp [String.ofList_eq_empty_iff.mp hnone]
  · rintro ⟨hinput, hempty, hslash⟩
    have hsplit := splitOnce_iff.mpr ⟨hinput, hslash⟩
    have hlist : database.toList ≠ [] := fun h => hempty (String.toList_eq_nil_iff.mp h)
    have hlease : '/' ∉ lease.value.toList := fun h => (lease.valid.2.2 _ h).1 rfl
    simp [parseConnectionField, hsplit, hlist, hlease, new_value]

/-! ### Templates and leases -/

/-- The text that a client connects to: a template, a slash, and a lease. -/
def fieldOf (template lease : String) : String := template ++ "/" ++ lease

theorem eq_fieldOf {input template lease : String} :
    input = fieldOf template lease ↔
      input.toList = template.toList ++ '/' :: lease.toList := by
  rw [← String.toList_inj, fieldOf, String.toList_append, String.toList_append, List.append_assoc]
  rfl

/-- A field is read back as it was written. -/
theorem parseConnectionField_fieldOf {template : String} (hne : template ≠ "")
    (hslash : '/' ∉ template.toList) (lease : LeaseId) :
    parseConnectionField (fieldOf template lease.value) = .ok (template, lease) :=
  parseConnectionField_iff.mpr ⟨eq_fieldOf.mp rfl, hne, hslash⟩

theorem valid_iff {lease : String} :
    LeaseId.Valid lease ↔ 1 ≤ lease.utf8ByteSize ∧ lease.utf8ByteSize ≤ 256 ∧
      '/' ∉ lease.toList ∧ '\x00' ∉ lease.toList := by
  unfold LeaseId.Valid
  constructor
  · rintro ⟨hne, hle, hchars⟩
    exact ⟨by omega, hle, fun h => (hchars _ h).1 rfl, fun h => (hchars _ h).2 rfl⟩
  · rintro ⟨hne, hle, hslash, hnul⟩
    refine ⟨by omega, hle, fun c hc => ⟨?_, ?_⟩⟩
    · rintro rfl
      exact hslash hc
    · rintro rfl
      exact hnul hc

/-- **The parser accepts exactly `template/lease`.**  The template is what comes
before the first slash and is not empty, and the lease is 1 to 256 bytes of UTF-8
without slash and NUL, kept as it is.  A template and a lease are read back from
the field they make, and no other pair makes the same field. -/
theorem connection_field_exact :
    (∀ input template lease,
      (∃ id : LeaseId, id.value = lease ∧ parseConnectionField input = .ok (template, id)) ↔
        input = template ++ "/" ++ lease ∧ template ≠ "" ∧ '/' ∉ template.toList ∧
          1 ≤ lease.utf8ByteSize ∧ lease.utf8ByteSize ≤ 256 ∧ '/' ∉ lease.toList ∧
            '\x00' ∉ lease.toList) ∧
    (∀ template (lease : LeaseId), template ≠ "" → '/' ∉ template.toList →
      parseConnectionField (template ++ "/" ++ lease.value) = .ok (template, lease)) ∧
    ∀ template template' (lease lease' : LeaseId), '/' ∉ template.toList →
      '/' ∉ template'.toList →
      template ++ "/" ++ lease.value = template' ++ "/" ++ lease'.value →
        template = template' ∧ lease = lease' := by
  refine ⟨fun input template lease => ⟨?_, ?_⟩, ?_, ?_⟩
  · rintro ⟨id, rfl, hok⟩
    obtain ⟨hinput, hne, hslash⟩ := parseConnectionField_iff.mp hok
    exact ⟨eq_fieldOf.mpr hinput, hne, hslash, valid_iff.mp id.valid⟩
  · rintro ⟨rfl, hne, hslash, hvalid⟩
    exact ⟨⟨lease, valid_iff.mpr hvalid⟩, rfl,
      parseConnectionField_fieldOf hne hslash ⟨lease, valid_iff.mpr hvalid⟩⟩
  · intro template lease hne hslash
    exact parseConnectionField_fieldOf hne hslash lease
  · intro template template' lease lease' hslash hslash' heq
    -- the first slash of the common text ends both templates
    have hfirst := splitOnce_iff.mpr
      ⟨eq_fieldOf.mp (rfl : fieldOf template lease.value = _), hslash⟩
    have hsecond := splitOnce_iff.mpr ⟨eq_fieldOf.mp heq, hslash'⟩
    obtain ⟨htemplate, hlease⟩ := Prod.mk.inj (Option.some.inj (hfirst.symm.trans hsecond))
    refine ⟨String.toList_inj.mp htemplate, ?_⟩
    cases lease
    cases lease'
    cases String.toList_inj.mp hlease
    rfl

end PgTest.Wire
