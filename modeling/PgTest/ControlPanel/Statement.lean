import PgTest.ControlPanel.Grammar

/-!
# Statements of the control panel

A query is parsed by the grammar, and its statement is read off the pairs.
-/

namespace PgTest.ControlPanel

open PgTest.Lib Peg Computability

inductive LeaseArgument
  | literal (lease : String)
  | parameter (index : Nat)
  deriving DecidableEq, Repr

inductive PgTestQueryTypeControlStatement
  | release (argument : LeaseArgument)
  | ping
  deriving DecidableEq, Repr

/-- "unsupported control-panel command". -/
structure InvalidControlQuery where
  deriving DecidableEq, Repr

/-- `str::strip_prefix` of a character. -/
def stripPrefix (c : Char) : List Char → Option (List Char)
  | [] => none
  | d :: s => if d = c then some s else none

/-- `str::strip_suffix` of a character. -/
def stripSuffix (c : Char) (s : List Char) : Option (List Char) :=
  if s.getLast? = some c then some s.dropLast else none

/-- `str::replace` of `''` by `'`: from left to right, without overlaps. -/
def replaceQuotes : List Char → List Char
  | [] => []
  | [c] => [c]
  | c :: d :: s =>
    if c = '\'' ∧ d = '\'' then '\'' :: replaceQuotes s else c :: replaceQuotes (d :: s)

/-- What a literal denotes. -/
def literalOf (text : List Char) : Option String :=
  ((stripPrefix '\'' text).bind (stripSuffix '\'')).map fun unquote =>
    String.ofList (replaceQuotes unquote)

namespace PgTestQueryTypeControlStatement

def ofPair (pair : Pair Rule Char) : Option PgTestQueryTypeControlStatement :=
  match pair.rule with
  | .ping => some .ping
  | .release =>
    pair.inner.head?.bind fun child =>
      match child.rule with
      | .textLiteral => (literalOf child.text).map fun literal => .release (.literal literal)
      | .parameter => some (.release (.parameter 0))
      | _ => none
  | _ => none

def parse (query : String) : Except InvalidControlQuery PgTestQueryTypeControlStatement :=
  match run query.toList.length Grammar.query query.toList with
  | none => .error {}
  | some (value, _) =>
    match value.head?.bind ofPair with
    | some statement => .ok statement
    | none => .error {}

end PgTestQueryTypeControlStatement

/-! ### Literals denote one string -/

theorem replaceQuotes_cons {c : Char} (hc : c ≠ '\'') (s : List Char) :
    replaceQuotes (c :: s) = c :: replaceQuotes s := by
  cases s with
  | nil => rfl
  | cons d s => rw [replaceQuotes, if_neg fun h => hc h.1]

theorem replaceQuotes_doubled (v : List Char) : replaceQuotes (doubled v) = v := by
  induction v with
  | nil => rfl
  | cons c v ih =>
    rw [doubled]
    by_cases hc : c = '\''
    · rw [if_pos hc, replaceQuotes, if_pos ⟨rfl, rfl⟩, ih, hc]
    · rw [if_neg hc, replaceQuotes_cons hc, ih]

/-- Decoding undoes quoting. -/
theorem literalOf_quoted (v : String) : literalOf (quoted v) = some v := by
  have hprefix : stripPrefix '\'' (quoted v) = some (doubled v.toList ++ ['\'']) := rfl
  have hsuffix : stripSuffix '\'' (doubled v.toList ++ ['\'']) = some (doubled v.toList) := by
    rw [stripSuffix, if_pos List.getLast?_concat, List.dropLast_concat]
  rw [literalOf, hprefix, Option.bind_some, hsuffix, Option.map_some, replaceQuotes_doubled,
    String.ofList_toList]

/-! ### Commands -/

namespace Grammar

/-- What the choice between the commands reads. -/
def commanded : Reading Rule Char := fun x ps => reported .ping pingCore x ps ∨ released x ps

theorem keyword_length {w : String} {x : List Char} (h : x ∈ keyword w) :
    x.length = w.toList.length := by
  have hlen := congrArg List.length (show x.map Char.toLower = w.toList.map Char.toLower from h)
  simpa using hlen

/-- After `SELECT` comes `1`, or the name of the function. -/
theorem ping_ne_release {x y s t : List Char} {ps : List (Pair Rule Char)} (hx : x ∈ pingCore)
    (hy : released y ps) : x ++ s ≠ y ++ t := by
  obtain ⟨_, ⟨_, _, c, _, rfl, _, ⟨u, _, _, _, rfl, _, ⟨hu, _⟩, _⟩, _⟩, _⟩ := hy
  rw [pingCore, mul_assoc] at hx
  rw [opening_eq] at hu
  obtain ⟨k, hk, _, hgap, rfl⟩ := Language.mem_mul.mp hx
  obtain ⟨w, hw, _, rfl, rfl⟩ := Language.mem_mul.mp hgap
  obtain ⟨k', hk', _, hgap', rfl⟩ := Language.mem_mul.mp hu
  obtain ⟨w', hw', _, hnext, rfl⟩ := Language.mem_mul.mp hgap'
  obtain ⟨name, hname, _, _, rfl⟩ := Language.mem_mul.mp hnext
  obtain ⟨d, name, rfl, hd⟩ := keyword_head (w := "pgtest_release") rfl hname
  intro h
  simp only [List.append_assoc] at h
  have hlen : k.length = k'.length := by rw [keyword_length hk, keyword_length hk']
  have hrest := (List.append_inj h hlen).2
  have hone : '1' = d := blank_end_unique (by decide) (not_ws_of_toLower hd (by decide))
    (mem_blank_plus hw) (mem_blank_plus hw') hrest
  rw [← hone] at hd
  exact absurd hd (by decide)

theorem command_exact : Exact (.choice ping release) commanded Any := by
  refine (ping_exact.choice release_exact ?_).mono fun _ _ => ⟨trivial, trivial⟩
  intro n y ps r hy _
  exact ping_exact.refuses fun x qs t hx h => ping_ne_release hx.1 hy h.symm

/-- What may come after a command. -/
def ending : Language Char := blank∗ * (1 + token ";") * blank∗

/-- Whitespace is all that the first repetition reads, if there is no semicolon. -/
theorem ending_exact : Exact (seqs (.star ws) [.opt (exactly ";"), .star ws, .node .EOI .stop])
    (join (silent ending) (reported .EOI 1)) (· = []) := by
  have hstop := star_ws_exact.seq (Exact.stop.node_silent Rule.EOI) (by
    rintro _ _ _ ⟨rfl, _⟩ rfl c t h
    cases h)
  have hsemicolon := ((exactly_exact ";").opt (G := fun r => ∀ t, r ≠ ';' :: t) (by
    intro n r hr
    refine (exactly_exact ";").refuses ?_
    rintro _ _ t ⟨rfl, _⟩
    exact hr t)).seq hstop (by
      rintro _ _ _ ⟨w, _, _, _, rfl, _, ⟨hw, _⟩, ⟨rfl, _⟩⟩ rfl
      refine ⟨trivial, fun t ht => ?_⟩
      have hmem : ';' ∈ w := by
        simp only [List.append_nil] at ht
        rw [ht]
        exact List.mem_cons_self
      exact absurd (mem_blank_kstar.mp hw _ hmem) (by decide))
  have hbody := star_ws_exact.seq_split hsemicolon ?_
  · simp only [join_assoc, join_silent] at hbody
    rw [ending, mul_assoc]
    exact hbody
  · rintro _ _ r ⟨y, _, _, _, rfl, rfl, ⟨hy, rfl⟩, z, qs, u, rs, rfl, rfl, ⟨hz, rfl⟩, hu⟩ rfl
    rcases hz with rfl | rfl
    · obtain ⟨v, _, _, _, rfl, rfl, ⟨hv, rfl⟩, rfl, rfl⟩ := hu
      refine ⟨y ++ v, [], [], _, ?_, rfl, ⟨?_, rfl⟩, ?_, ?_⟩
      · simp only [List.nil_append, List.append_nil]
      · rw [mem_blank_kstar] at hy hv ⊢
        exact fun c hc => (List.mem_append.mp hc).elim (hy c) (hv c)
      · exact ⟨[], [], [], _, rfl, rfl, ⟨Or.inl rfl, rfl⟩, [], [], [], _, rfl, rfl,
          ⟨Language.nil_mem_kstar _, rfl⟩, rfl, rfl⟩
      · intro c t h
        cases h
    · refine ⟨y, [], [';'] ++ u, rs, rfl, rfl, ⟨hy, rfl⟩, ?_, ?_⟩
      · exact ⟨[';'], [], u, rs, rfl, rfl, ⟨Or.inr rfl, rfl⟩, hu⟩
      · exact noWs_cons (by decide)

/-- What a query reads. -/
def queried : Reading Rule Char :=
  join (silent blank∗) (join commanded (join (silent ending) (reported .EOI 1)))

theorem command_head {x : List Char} {ps : List (Pair Rule Char)} (h : commanded x ps)
    (r : List Char) : NoWs (x ++ r) := by
  rcases h with ⟨hx, _⟩ | ⟨_, hx, _⟩
  · rw [pingCore, mul_assoc] at hx
    exact noWs_mul hx (fun y hy => noWs_keyword rfl (by decide) hy) 
  · refine noWs_join hx ?_ r
    intro _ _ hx
    refine noWs_join hx ?_ 
    rintro y _ ⟨hy, _⟩
    rw [opening_eq] at hy
    exact fun r => noWs_mul hy (fun z hz => noWs_keyword rfl (by decide) hz)

/-- **The grammar reads whole queries only**, and all of those in its language. -/
theorem query_exact {i r : List Char} {ps : List (Pair Rule Char)} :
    run i.length query i = some (ps, r) ↔ r = [] ∧ queried i ps := by
  have htail := command_exact.seq ending_exact fun _ _ _ _ _ => trivial
  have hbody := star_ws_exact.seq htail
    fun y ps r hy _ => noWs_join hy (fun _ _ => command_head) r
  have hstart : run i.length (.start : Grammar) i = some ([], i) := if_pos rfl
  have hquery : run i.length query i = some (ps, r) ↔ run i.length (seqs (.star ws)
      [.choice ping release, .star ws, .opt (exactly ";"), .star ws, .node .EOI .stop]) i =
      some (ps, r) := by
    rw [query, seqs, run_seq hstart]
    simp
  rw [hquery]
  constructor
  · intro h
    obtain ⟨j, qs, hlast⟩ := run_seqs_last h
    obtain ⟨_, hend⟩ := run_node_body hlast
    have hr : r = [] := run_stop_end hend
    obtain ⟨x, hi, hx⟩ := hbody.sound h
    rw [hr, List.append_nil] at hi
    exact ⟨hr, hi ▸ hx⟩
  · rintro ⟨rfl, h⟩
    have hrun := hbody.complete i.length h rfl
    rw [List.append_nil] at hrun
    exact hrun

end Grammar

/-! ### The language of every statement -/

def argumentShape : LeaseArgument → Language Char
  | .literal v => {quoted v}
  | .parameter 0 => parameterShape
  | .parameter (_ + 1) => 0

namespace PgTestQueryTypeControlStatement

open Grammar

def commandShape : PgTestQueryTypeControlStatement → Language Char
  | .ping => pingCore
  | .release argument => opening * argumentShape argument * closing

/-- The queries that say the statement. -/
def shape (statement : PgTestQueryTypeControlStatement) : Language Char :=
  blank∗ * statement.commandShape * ending

/-- The pair of an argument says which one it is. -/
theorem argument_reads (lease : LeaseArgument) {x y : List Char} :
    (∃ qs, argument x qs ∧ ofPair (.mk .release y qs) = some (.release lease)) ↔
      x ∈ argumentShape lease := by
  constructor
  · rintro ⟨_, ⟨⟨v, rfl⟩, rfl⟩ | ⟨hx, rfl⟩, h⟩
    · have hpair : ofPair (.mk .release y [.mk .textLiteral (quoted v) []]) =
          (literalOf (quoted v)).map fun literal => .release (.literal literal) := rfl
      rw [hpair, literalOf_quoted] at h
      cases h
      rfl
    · cases h
      exact hx
  · intro hx
    cases lease with
    | literal v =>
      refine ⟨_, Or.inl ⟨⟨v, hx⟩, rfl⟩, ?_⟩
      have hpair : ofPair (.mk .release y [.mk .textLiteral x []]) =
          (literalOf x).map fun literal => .release (.literal literal) := rfl
      rw [hpair, show x = quoted v from hx, literalOf_quoted]
      rfl
    | parameter index =>
      cases index with
      | zero => exact ⟨_, Or.inr ⟨hx, rfl⟩, rfl⟩
      | succ index => cases hx

theorem command_pair {x : List Char} {ps : List (Pair Rule Char)} (h : commanded x ps) :
    ∃ p, ps = [p] := by
  rcases h with ⟨_, rfl⟩ | ⟨_, _, rfl⟩ <;> exact ⟨_, rfl⟩

theorem release_ne_ping {y : List Char} {qs : List (Pair Rule Char)} :
    ofPair (.mk .release y qs) ≠ some .ping := by
  intro h
  obtain ⟨child, _, hchild⟩ := Option.bind_eq_some_iff.mp h
  split at hchild
  · obtain ⟨_, _, heq⟩ := Option.map_eq_some_iff.mp hchild
    cases heq
  · cases hchild
  · cases hchild

theorem command_reads (statement : PgTestQueryTypeControlStatement) {x : List Char} :
    (∃ p, commanded x [p] ∧ ofPair p = some statement) ↔ x ∈ statement.commandShape := by
  constructor
  · rintro ⟨p, ⟨hx, hp⟩ | ⟨qs, ⟨_, _, c, _, rfl, rfl, ⟨u, _, a, qs, rfl, rfl, ⟨hu, rfl⟩, ha⟩,
      hc, rfl⟩, hp⟩, h⟩
    · cases hp
      cases h
      exact hx
    · cases hp
      rw [List.nil_append, List.append_nil] at h
      cases statement with
      | ping => exact absurd h release_ne_ping
      | release lease =>
        have hlease := (argument_reads lease).mp ⟨qs, ha, h⟩
        exact Language.append_mem_mul (Language.append_mem_mul hu hlease) hc
  · intro hx
    cases statement with
    | ping => exact ⟨_, Or.inl ⟨hx, rfl⟩, rfl⟩
    | release lease =>
      obtain ⟨_, hbefore, c, hc, rfl⟩ := Language.mem_mul.mp hx
      obtain ⟨u, hu, a, ha, rfl⟩ := Language.mem_mul.mp hbefore
      obtain ⟨qs, hread, hpair⟩ := (argument_reads lease (y := u ++ a ++ c)).mpr ha
      refine ⟨_, Or.inr ⟨qs, ⟨u ++ a, qs, c, [], rfl, ?_, ⟨u, [], a, qs, rfl, rfl, ⟨hu, rfl⟩,
        hread⟩, hc, rfl⟩, rfl⟩, hpair⟩
      rw [List.append_nil]

theorem parse_eq_ok (query : String) (statement : PgTestQueryTypeControlStatement) :
    parse query = .ok statement ↔ ∃ ps r,
      run query.toList.length Grammar.query query.toList = some (ps, r) ∧
        ps.head?.bind ofPair = some statement := by
  rw [parse]
  split
  case h_1 hrun =>
    simp [hrun]
  case h_2 ps r hrun =>
    split
    case h_1 s hs => simp [hrun, hs]
    case h_2 hs => simp [hrun, hs]

/-- **A query says a statement** if and only if it is in the language of the statement. -/
theorem parse_iff (query : String) (statement : PgTestQueryTypeControlStatement) :
    parse query = .ok statement ↔ query.toList ∈ statement.shape := by
  rw [parse_eq_ok, shape]
  simp only [query_exact]
  constructor
  · rintro ⟨ps, _, ⟨rfl, w, _, _, _, hw, rfl, ⟨hblank, rfl⟩, x, _, _, _, rfl, rfl, hx,
      y, _, _, _, rfl, rfl, ⟨hy, rfl⟩, rfl, rfl⟩, h⟩
    obtain ⟨p, rfl⟩ := command_pair hx
    have hcommand := (command_reads statement).mp ⟨p, hx, h⟩
    rw [hw, List.append_nil, ← List.append_assoc]
    exact Language.append_mem_mul (Language.append_mem_mul hblank hcommand) hy
  · intro h
    obtain ⟨_, hbefore, y, hy, hquery⟩ := Language.mem_mul.mp h
    obtain ⟨w, hblank, x, hx, rfl⟩ := Language.mem_mul.mp hbefore
    obtain ⟨p, hread, hpair⟩ := (command_reads statement).mpr hx
    refine ⟨_, [], ⟨rfl, w, [], x ++ y, [p] ++ [.mk .EOI [] []], ?_, rfl, ⟨hblank, rfl⟩,
      x, [p], y, _, rfl, rfl, hread, y, [], [], _, ?_, rfl, ⟨hy, rfl⟩, rfl, rfl⟩, hpair⟩
    · rw [← hquery, List.append_assoc]
    · rw [List.append_nil]

theorem ping_shape : shape .ping = pingShape := by
  simp only [shape, commandShape, pingCore, ending, pingShape, mul_assoc]

theorem releaseShape_eq (l : Language Char) :
    releaseShape l = blank∗ * (opening * l * closing) * ending := by
  simp only [opening, closing, ending, releaseShape, mul_assoc]

theorem release_shape (lease : LeaseArgument) :
    shape (.release lease) = releaseShape (argumentShape lease) :=
  (releaseShape_eq _).symm

theorem parse_release {query : String} (lease : LeaseArgument) :
    parse query = .ok (.release lease) ↔ query.toList ∈ releaseShape (argumentShape lease) := by
  rw [parse_iff, release_shape]

/-- The query that releases a lease by its literal. -/
def releaseQuery (lease : String) : String :=
  String.ofList ("SELECT pgtest_release(".toList ++ quoted lease ++ [')'])

theorem plain_opening : "SELECT pgtest_release(".toList ∈ opening := by
  rw [opening_eq]
  have hnone : [] ∈ blank∗ := Language.nil_mem_kstar blank
  have hspace : [' '] ++ [] ∈ blank * blank∗ :=
    Language.append_mem_mul ⟨' ', Or.inl rfl, rfl⟩ hnone
  have hopen : [] ++ (['('] ++ []) ∈ blank∗ * (token "(" * blank∗) :=
    Language.append_mem_mul hnone (Language.append_mem_mul rfl hnone)
  exact Language.append_mem_mul (show "SELECT".toList ∈ keyword "SELECT" from rfl)
    (Language.append_mem_mul hspace (Language.append_mem_mul
      (show "pgtest_release".toList ∈ keyword "pgtest_release" from rfl) hopen))

theorem mem_releaseShape {u a : List Char} {l : Language Char} (hu : u ∈ opening) (ha : a ∈ l) :
    u ++ a ++ [')'] ∈ releaseShape l := by
  have hnone : [] ∈ blank∗ := Language.nil_mem_kstar blank
  have hclosing : [] ++ [')'] ∈ closing := Language.append_mem_mul hnone rfl
  have hending : [] ++ [] ++ [] ∈ ending :=
    Language.append_mem_mul (Language.append_mem_mul hnone (Or.inl rfl)) hnone
  have hcommand : u ++ a ++ ([] ++ [')']) ∈ opening * l * closing :=
    Language.append_mem_mul (Language.append_mem_mul hu ha) hclosing
  have hquery := Language.append_mem_mul (Language.append_mem_mul hnone hcommand) hending
  simp only [List.nil_append, List.append_nil] at hquery
  rw [releaseShape_eq]
  exact hquery

/-- A literal is released by its own query. -/
theorem releaseQuery_shape (lease : String) :
    (releaseQuery lease).toList ∈ releaseShape {quoted lease} := by
  have hword : (releaseQuery lease).toList =
      "SELECT pgtest_release(".toList ++ quoted lease ++ [')'] := String.toList_ofList
  rw [hword]
  exact mem_releaseShape plain_opening (Set.mem_singleton (quoted lease))

theorem parse_releaseQuery (lease : String) :
    parse (releaseQuery lease) = .ok (.release (.literal lease)) :=
  (parse_release (.literal lease)).mpr (releaseQuery_shape lease)

/-- **The parser accepts its language and decodes literals uniquely.** -/
theorem parse_exact (query : String) :
    (parse query = .ok .ping ↔ query.toList ∈ pingShape) ∧
    (parse query = .ok (.release (.parameter 0)) ↔ query.toList ∈ releaseShape parameterShape) ∧
    (∀ lease, parse query = .ok (.release (.literal lease)) ↔
      query.toList ∈ releaseShape {quoted lease}) ∧
    (query.toList ∉ pingShape → query.toList ∉ releaseShape parameterShape →
      (∀ lease, query.toList ∉ releaseShape {quoted lease}) → parse query = .error {}) ∧
    (∀ lease lease', query.toList ∈ releaseShape {quoted lease} →
      query.toList ∈ releaseShape {quoted lease'} → lease = lease') ∧
    ∀ lease, parse (releaseQuery lease) = .ok (.release (.literal lease)) := by
  have hping : parse query = .ok .ping ↔ query.toList ∈ pingShape := by
    rw [parse_iff, ping_shape]
  refine ⟨hping, parse_release (.parameter 0), fun lease => parse_release (.literal lease), ?_, ?_,
    parse_releaseQuery⟩
  · intro hnoping hnoparameter hnoliteral
    cases h : parse query with
    | error e => rfl
    | ok statement =>
      exfalso
      cases statement with
      | ping => exact hnoping (hping.mp h)
      | release lease =>
        have hmem := (parse_release lease).mp h
        cases lease with
        | literal lease => exact hnoliteral lease hmem
        | parameter index =>
          cases index with
          | zero => exact hnoparameter hmem
          | succ index =>
            simp only [releaseShape, argumentShape, mul_zero, zero_mul] at hmem
            cases hmem
  · intro lease lease' h h'
    have heq := ((parse_release (.literal lease)).mpr h).symm.trans
      ((parse_release (.literal lease')).mpr h')
    cases heq
    rfl

end PgTestQueryTypeControlStatement

end PgTest.ControlPanel
