import Conditional.Proofs.Lines
import Conditional.Proofs.Substitution

/-!
# Conditional.Proofs.Listing

The display of a term, line by line.  Every line belongs to a node: it shows the
node, or it closes the list of the node's children.  Which lines there are and whose
they are is a matter of the term alone (`Term.rows`).  What a line says is a matter of
its node and of the position of the node (`Row.Says`), and only its indentation is a
matter of the level of the display (`Row.Shows`).

The display of a term has these lines (`Term.Native.exists_lines`).  So whatever is said
about their order is proved of the rows, where the rows of a subterm stand together
(`Term.exists_block`) and the last of them can be told by its node alone
(`Term.lastRow_iff`).  All of it is put together in `display_lists`.
-/

namespace Conditional

/-! ## Rows -/

/-- A line of a display and the node that it belongs to.  It shows the node or closes
the list of its children. -/
structure Row where
  position : List Part
  node : Term
  closes : Bool
deriving DecidableEq, Repr

namespace Term

/-- The rows of a term that stands at a position. -/
def rowsAt (position : List Part) : Term → List Row
  | ite c a b =>
    ⟨position, ite c a b, false⟩ :: (c.rowsAt (position ++ [.condition]) ++
      a.rowsAt (position ++ [.thenBranch]) ++ b.rowsAt (position ++ [.elseBranch]) ++
      [⟨position, ite c a b, true⟩])
  | t => [⟨position, t, false⟩]

/-- The rows of a term. -/
def rows (t : Term) : List Row := t.rowsAt []

/-- The nodes of a term that stands at a position, with their positions, each one
before the nodes below it. -/
def preorderAt (position : List Part) : Term → List (List Part × Term)
  | ite c a b =>
    (position, ite c a b) :: (c.preorderAt (position ++ [.condition]) ++
      a.preorderAt (position ++ [.thenBranch]) ++ b.preorderAt (position ++ [.elseBranch]))
  | t => [(position, t)]

/-- The nodes of a term in preorder. -/
def preorder (t : Term) : List (List Part × Term) := t.preorderAt []

/-- The number of literals in a term. -/
def literals : Term → Nat
  | lit _ => 1
  | ite c a b => c.literals + a.literals + b.literals
  | foreign _ => 0

/-- The number of conditionals in a term. -/
def conditionals : Term → Nat
  | lit _ | foreign _ => 0
  | ite c a b => c.conditionals + a.conditionals + b.conditionals + 1

end Term

/-- What stands at the position is followed by a sibling. -/
def Separated (position : List Part) : Prop :=
  position.getLast? = some .condition ∨ position.getLast? = some .thenBranch

instance (position : List Part) : Decidable (Separated position) := instDecidableOr

/-- The comma that separates what stands at a position from its next sibling. -/
def separator (position : List Part) : Text := if Separated position then [','] else []

theorem separator_condition (position : List Part) :
    separator (position ++ [.condition]) = [','] := by
  simp [separator, Separated]

theorem separator_thenBranch (position : List Part) :
    separator (position ++ [.thenBranch]) = [','] := by
  simp [separator, Separated]

theorem separator_elseBranch (position : List Part) :
    separator (position ++ [.elseBranch]) = [] := by
  simp [separator, Separated]

theorem lineFeed_not_mem_separator (position : List Part) : '\n' ∉ separator position := by
  rw [separator]
  split <;> simp

/-- A comma is at the end only if it separates. -/
theorem getLast?_append_separator {t : Text} (ht : t.getLast? = some ')') (position : List Part) :
    (t ++ separator position).getLast? = some ',' ↔ Separated position := by
  rw [separator]
  split <;> simp [*]

/-- What a row has to say, whatever its indentation is. -/
inductive Row.Says : Row → Text → Prop where
  | literal (position : List Part) (value : Bool) :
      Says ⟨position, .lit value, false⟩
        ((Term.lit value).form ++ "(expr='" ++ spellBool value ++ "')" ++ separator position)
  | header {position : List Part} {c a b : Term} {s : Text} :
      (Term.ite c a b).text = .ok s →
      Says ⟨position, .ite c a b, false⟩
        ((Term.ite c a b).form ++ "(expr='" ++ s ++ "', nodes=[")
  | closing (position : List Part) (t : Term) :
      Says ⟨position, t, true⟩ ("])" ++ separator position)

/-- In a display on some level, the line says what the row has to say, behind the
indentation of its position. -/
def Row.Shows (level : Int) (r : Row) (line : Text) : Prop :=
  ∃ body, r.Says body ∧ line = Term.indentation (level + r.position.length) ++ body

namespace Term

/-- The parts of a conditional are displayed one level deeper. -/
theorem display_ite {level : Int} {c a b : Term} {s sc sa sb : Text}
    (hs : (ite c a b).text = .ok s) (hc : c.display (level + 1) = .ok sc)
    (ha : a.display (level + 1) = .ok sa) (hb : b.display (level + 1) = .ok sb) :
    (ite c a b).display level = .ok (indentation level ++ (ite c a b).form ++ "(expr='" ++ s ++
      "'" ++ ", nodes=[\n" ++ sc ++ ",\n" ++ sa ++ ",\n" ++ sb ++ "\n" ++ indentation level ++
      "])") := by
  rw [display, header, hs, hc, ha, hb]
  rfl

theorem rowsAt_ne_nil (t : Term) (position : List Part) : t.rowsAt position ≠ [] := by
  cases t <;> simp [rowsAt]

/-- A native term is displayed as its rows show, with a comma behind it if it is
followed by a sibling. -/
theorem Native.exists_layout {t : Term} (h : t.Native) (level : Int) (position : List Part) :
    ∃ s ls, t.display (level + position.length) = .ok s ∧
      List.Forall₂ (Row.Shows level) (t.rowsAt position) ls ∧
      s ++ separator position = Text.join ['\n'] ls := by
  induction t generalizing position with
  | lit value =>
      refine ⟨_, _, rfl, .cons ⟨_, .literal position value, rfl⟩ .nil, ?_⟩
      simp [Text.join, Text.lit]
  | ite c a b hc ha hb =>
      obtain ⟨nc, na, nb⟩ := native_ite.1 h
      obtain ⟨s, hs⟩ := h.exists_text
      have hlevel (part : Part) :
          level + ((position ++ [part]).length : Int) = level + position.length + 1 := by
        simp [Int.add_assoc]
      obtain ⟨sc, lc, hsc, hlc, joinc⟩ := hc nc (position ++ [.condition])
      obtain ⟨sa, la, hsa, hla, joina⟩ := ha na (position ++ [.thenBranch])
      obtain ⟨sb, lb, hsb, hlb, joinb⟩ := hb nb (position ++ [.elseBranch])
      rw [hlevel] at hsc hsa hsb
      have hne {u : Term} {q : List Part} {ls : List Text}
          (hls : List.Forall₂ (Row.Shows level) (u.rowsAt q) ls) : ls ≠ [] := by
        rintro rfl
        exact rowsAt_ne_nil u q (List.forall₂_nil_right_iff.1 hls)
      have hrows := List.rel_append (List.rel_append (List.rel_append hlc hla) hlb)
        (.cons ⟨_, .closing position (ite c a b), rfl⟩ .nil)
      refine ⟨_, _, display_ite hs hsc hsa hsb, .cons ⟨_, .header hs, rfl⟩ hrows, ?_⟩
      rw [separator_condition] at joinc
      rw [separator_thenBranch] at joina
      rw [separator_elseBranch] at joinb
      rw [Text.join_cons (by simp), Text.join_append (by simp [hne hlc]) (by simp),
        Text.join_append (by simp [hne hlc]) (hne hlb), Text.join_append (hne hlc) (hne hla),
        ← joinc, ← joina, ← joinb]
      simp [Text.join, Text.lit]
  | foreign node => exact h.elim

/-- There is one row for each literal and two for each conditional. -/
theorem Native.length_rowsAt {t : Term} (h : t.Native) (position : List Part) :
    (t.rowsAt position).length = t.literals + 2 * t.conditionals := by
  induction t generalizing position with
  | lit value => rfl
  | ite c a b hc ha hb =>
      obtain ⟨nc, na, nb⟩ := native_ite.1 h
      simp only [rowsAt, List.length_cons, List.length_append, List.length_nil, hc nc, ha na, hb nb,
        literals, conditionals]
      omega
  | foreign node => exact h.elim

/-- Without those that close lists, the rows are the nodes in preorder. -/
theorem filter_rowsAt (t : Term) (position : List Part) :
    ((t.rowsAt position).filter fun r => !r.closes).map (fun r => (r.position, r.node)) =
      t.preorderAt position := by
  induction t generalizing position with
  | lit value | foreign node => rfl
  | ite c a b hc ha hb => simp [rowsAt, preorderAt, hc, ha, hb]

end Term

theorem Term.indentation_eq_replicate (level n : Nat) :
    indentation (level + n) = List.replicate (4 * (level + n)) ' ' := by
  rw [indentation, Text.fill]
  congr 1

/-- Behind its margin the line begins with a bracket that closes a list. -/
def Text.closesList (line : Text) : Bool := (line.drop line.margin).head? = some ']'

namespace Row.Says

variable {r : Row} {body : Text}

theorem unique {body' : Text} (h : r.Says body) (h' : r.Says body') : body = body' := by
  cases h with
  | literal position value =>
      cases h'
      rfl
  | header hs =>
      cases h' with
      | header hs' => rw [Except.ok.inj (hs.symm.trans hs')]
  | closing position t =>
      cases h'
      rfl

theorem lineFeed_not_mem (h : r.Says body) (hnative : r.node.Native) : '\n' ∉ body := by
  cases h with
  | literal position value =>
      cases value <;>
        simp [lineFeed_not_mem_separator position, spellBool, Text.lit, Term.form]
  | header hs => simp [(hnative.inline hs).lineFeed_not_mem, Text.lit, Term.form]
  | closing position t => simp [lineFeed_not_mem_separator position, Text.lit]

/-- What a row has to say begins with the name of a form or with a bracket. -/
theorem exists_head (h : r.Says body) :
    ∃ c, body.head? = some c ∧ c ≠ ' ' ∧ (c = ']' ↔ r.closes) := by
  cases h with
  | literal position value =>
      cases value with
      | true => exact ⟨'T', rfl, by decide, by simp⟩
      | false => exact ⟨'F', rfl, by decide, by simp⟩
  | header hs => exact ⟨'I', rfl, by decide, by simp⟩
  | closing position t => exact ⟨']', rfl, by decide, by simp⟩

theorem ne_nil (h : r.Says body) : body ≠ [] := by
  rintro rfl
  obtain ⟨c, hhead, -⟩ := h.exists_head
  contradiction

/-- It ends with a comma exactly if the row is the last one of its node and a sibling
follows. -/
theorem getLast?_eq_comma_iff (h : r.Says body) :
    body.getLast? = some ',' ↔ (r.closes ∨ r.node.children = []) ∧ Separated r.position := by
  have hlast (t : Text) {u : Text} {c : Char} (hu : u.getLast? = some c) :
      (t ++ u).getLast? = some c := by
    rw [List.getLast?_append, hu, Option.some_or]
  cases h with
  | literal position value =>
      rw [getLast?_append_separator (hlast _ rfl)]
      simp [Term.children]
  | header hs =>
      rw [hlast _ (c := '[') rfl]
      simp [Term.children]
  | closing position t =>
      rw [getLast?_append_separator rfl]
      simp

end Row.Says

namespace Row.Shows

variable {r : Row} {line : Text}

theorem isLine {level : Int} (h : r.Shows level line) (hnative : r.node.Native) :
    line.IsLine := by
  obtain ⟨body, hbody, rfl⟩ := h
  exact Text.isLine_fill _ hbody.ne_nil (hbody.lineFeed_not_mem hnative)

/-- A line has a margin of four columns for each level. -/
theorem margin_eq {level : Nat} (h : r.Shows level line) :
    line.margin = 4 * (level + r.position.length) := by
  obtain ⟨body, hbody, rfl⟩ := h
  obtain ⟨c, hhead, hspace, -⟩ := hbody.exists_head
  have hnospace : body.head? ≠ some ' ' := by
    rw [hhead]
    exact fun hc => hspace (Option.some.inj hc)
  rw [Term.indentation, Text.margin_fill _ hnospace]
  omega

/-- Whether a line closes a list can be read off it. -/
theorem closesList_iff {level : Nat} (h : r.Shows level line) : line.closesList ↔ r.closes := by
  have hmargin := h.margin_eq
  obtain ⟨body, hbody, rfl⟩ := h
  obtain ⟨c, hhead, -, hcloses⟩ := hbody.exists_head
  rw [Text.closesList, hmargin, Term.indentation_eq_replicate, List.drop_left' (by simp), hhead]
  simpa using hcloses

theorem getLast?_eq_comma_iff {level : Int} (h : r.Shows level line) :
    line.getLast? = some ',' ↔
      (r.closes ∨ r.node.children = []) ∧ Separated r.position := by
  obtain ⟨body, hbody, rfl⟩ := h
  rw [List.getLast?_append_of_ne_nil _ hbody.ne_nil, hbody.getLast?_eq_comma_iff]

/-- On a higher level everything moves to the right. -/
theorem shift (h : r.Shows 0 line) (level : Nat) :
    r.Shows level (List.replicate (4 * level) ' ' ++ line) := by
  obtain ⟨body, hbody, rfl⟩ := h
  refine ⟨body, hbody, ?_⟩
  have hzero := Term.indentation_eq_replicate 0 r.position.length
  rw [Int.natCast_zero, Nat.zero_add] at hzero
  rw [Term.indentation_eq_replicate, hzero, ← List.append_assoc,
    List.replicate_append_replicate, Nat.mul_add]

end Row.Shows

/-- A row is shown in one way. -/
theorem rightUnique_shows (level : Int) : Relator.RightUnique (Row.Shows level) := by
  rintro r _ _ ⟨body, hbody, rfl⟩ ⟨body', hbody', rfl⟩
  rw [hbody.unique hbody']

/-! ## Positions -/

section

variable {p q l : List Part} {x y : Part}

theorem part_eq_of_prefixes (h : p ++ [x] <+: l) (h' : p ++ y :: q <+: l) : x = y := by
  have hparts : p ++ [x] <+: p ++ y :: q := by
    apply List.prefix_of_prefix_length_le h h'
    simp
  rw [List.prefix_append_right_inj, List.cons_prefix_cons] at hparts
  exact hparts.1

theorem not_append_cons_prefix_self : ¬ p ++ x :: q <+: p := by
  intro h
  have hlength := h.length_le
  rw [List.length_append, List.length_cons] at hlength
  omega

end

namespace Term

/-- A row of a term belongs to the node at its position. -/
theorem at?_of_mem_rowsAt {t : Term} {position : List Part} {r : Row}
    (h : r ∈ t.rowsAt position) :
    ∃ q, r.position = position ++ q ∧ t.at? q = some r.node := by
  induction t generalizing position with
  | lit value | foreign node =>
      obtain rfl := List.mem_singleton.1 h
      exact ⟨[], (List.append_nil position).symm, at?_nil _⟩
  | ite c a b hc ha hb =>
      simp only [rowsAt, List.mem_cons, List.mem_append, List.not_mem_nil, or_false] at h
      obtain rfl | ((h | h) | h) | rfl := h
      · exact ⟨[], (List.append_nil position).symm, at?_nil _⟩
      · obtain ⟨q, hq, hat⟩ := hc h
        exact ⟨.condition :: q, by rw [hq, List.append_assoc]; rfl, hat⟩
      · obtain ⟨q, hq, hat⟩ := ha h
        exact ⟨.thenBranch :: q, by rw [hq, List.append_assoc]; rfl, hat⟩
      · obtain ⟨q, hq, hat⟩ := hb h
        exact ⟨.elseBranch :: q, by rw [hq, List.append_assoc]; rfl, hat⟩
      · exact ⟨[], (List.append_nil position).symm, at?_nil _⟩

/-- The subterms of a native term are native. -/
theorem Native.of_at? {t u : Term} (h : t.Native) {q : List Part} (hat : t.at? q = some u) :
    u.Native := by
  induction q generalizing t with
  | nil =>
      obtain rfl : t = u := by simpa using hat
      exact h
  | cons part q ih =>
      obtain ⟨c, a, b, rfl⟩ := exists_ite_of_at?_cons hat
      obtain ⟨nc, na, nb⟩ := native_ite.1 h
      cases part with
      | condition => exact ih nc hat
      | thenBranch => exact ih na hat
      | elseBranch => exact ih nb hat

/-- Whatever has a subterm at a position has one at every position on the way. -/
theorem exists_at?_of_prefix {t u : Term} {p q : List Part} (h : t.at? p = some u)
    (hbelow : q <+: p) : ∃ v, t.at? q = some v := by
  obtain ⟨rest, rfl⟩ := hbelow
  induction q generalizing t with
  | nil => exact ⟨t, at?_nil t⟩
  | cons part q ih =>
      obtain ⟨c, a, b, rfl⟩ := exists_ite_of_at?_cons h
      cases part <;> exact ih h

theorem prefix_of_mem_rowsAt {t : Term} {position : List Part} {r : Row}
    (h : r ∈ t.rowsAt position) : position <+: r.position := by
  obtain ⟨q, hq, -⟩ := at?_of_mem_rowsAt h
  exact ⟨q, hq.symm⟩

/-- The rows of a part of a conditional stand together, and no row behind them is
one of that part. -/
theorem exists_part_block {t u : Term} {part : Part} (h : t.at? [part] = some u)
    (position : List Part) :
    ∃ before after, t.rowsAt position = before ++ (u.rowsAt (position ++ [part]) ++ after) ∧
      ∀ r ∈ after, ¬ position ++ [part] <+: r.position := by
  obtain ⟨c, a, b, rfl⟩ := exists_ite_of_at?_cons h
  have other {v : Term} {y : Part} {r : Row} (hr : r ∈ v.rowsAt (position ++ [y]))
      (hne : y ≠ part) : ¬ position ++ [part] <+: r.position :=
    fun hpart => hne (part_eq_of_prefixes (prefix_of_mem_rowsAt hr) hpart)
  have closing : ¬ position ++ [part] <+: (⟨position, ite c a b, true⟩ : Row).position :=
    not_append_cons_prefix_self
  cases part with
  | condition =>
      obtain rfl : c = u := by simpa [at?] using h
      refine ⟨[⟨position, ite c a b, false⟩], a.rowsAt (position ++ [.thenBranch]) ++
        (b.rowsAt (position ++ [.elseBranch]) ++ [⟨position, ite c a b, true⟩]),
        by simp [rowsAt], fun r hr => ?_⟩
      simp only [List.mem_append, List.mem_singleton] at hr
      obtain hr | hr | rfl := hr
      · exact other hr (by decide)
      · exact other hr (by decide)
      · exact closing
  | thenBranch =>
      obtain rfl : a = u := by simpa [at?] using h
      refine ⟨⟨position, ite c a b, false⟩ :: c.rowsAt (position ++ [.condition]),
        b.rowsAt (position ++ [.elseBranch]) ++ [⟨position, ite c a b, true⟩],
        by simp [rowsAt], fun r hr => ?_⟩
      simp only [List.mem_append, List.mem_singleton] at hr
      obtain hr | rfl := hr
      · exact other hr (by decide)
      · exact closing
  | elseBranch =>
      obtain rfl : b = u := by simpa [at?] using h
      refine ⟨⟨position, ite c a b, false⟩ :: (c.rowsAt (position ++ [.condition]) ++
        a.rowsAt (position ++ [.thenBranch])), [⟨position, ite c a b, true⟩],
        by simp [rowsAt], fun r hr => ?_⟩
      obtain rfl := List.mem_singleton.1 hr
      exact closing

/-- The rows of a subterm stand together, and no row behind them is one of it. -/
theorem exists_block {t u : Term} {q : List Part} (h : t.at? q = some u) (position : List Part) :
    ∃ before after, t.rowsAt position = before ++ (u.rowsAt (position ++ q) ++ after) ∧
      ∀ r ∈ after, ¬ position ++ q <+: r.position := by
  induction q generalizing t position with
  | nil =>
      obtain rfl : t = u := by simpa using h
      exact ⟨[], [], by simp, by simp⟩
  | cons part q ih =>
      obtain ⟨v, hv, hu⟩ : ∃ v, t.at? [part] = some v ∧ v.at? q = some u := by
        obtain ⟨c, a, b, rfl⟩ := exists_ite_of_at?_cons h
        cases part <;> exact ⟨_, at?_nil _, h⟩
      obtain ⟨before, after, hrows, hafter⟩ := exists_part_block hv position
      obtain ⟨before', after', hrows', hafter'⟩ := ih hu (position ++ [part])
      rw [List.append_assoc, List.singleton_append] at hrows' hafter'
      refine ⟨before ++ before', after' ++ after, ?_, fun r hr hbelow => ?_⟩
      · simp only [hrows, hrows', List.append_assoc]
      · obtain hr | hr := List.mem_append.1 hr
        · exact hafter' r hr hbelow
        · have hpart : position ++ [part] <+: position ++ part :: q := ⟨q, by simp⟩
          exact hafter r hr (hpart.trans hbelow)

/-- The last row of a term closes the list of its children, if it has any. -/
theorem exists_rowsAt_eq_concat (t : Term) (position : List Part) :
    ∃ front, t.rowsAt position = front ++ [⟨position, t, t.children ≠ []⟩] := by
  cases t with
  | lit value | foreign node => exact ⟨[], rfl⟩
  | ite c a b => exact ⟨_ :: _, rfl⟩

end Term

/-! ## Last rows -/

/-- The row of the given number is one of the subterm at the position, and it is the
last one. -/
structure LastRow (rows : List Row) (position : List Part) (i : Nat) : Prop where
  within : ∃ r, rows[i]? = some r ∧ position <+: r.position
  last : ∀ (j : Nat) (r : Row), i < j → rows[j]? = some r → ¬ position <+: r.position

namespace LastRow

variable {rows : List Row} {position : List Part} {i j : Nat}

theorem unique (h : LastRow rows position i) (h' : LastRow rows position j) : i = j := by
  obtain ⟨r, hr, hbelow⟩ := h.within
  obtain ⟨r', hr', hbelow'⟩ := h'.within
  have hle : ¬ i < j := fun hlt => h.last j r' hlt hr' hbelow'
  have hge : ¬ j < i := fun hlt => h'.last i r hlt hr hbelow
  omega

theorem of_split {front after : List Row} {r : Row} (hbelow : position <+: r.position)
    (hafter : ∀ r' ∈ after, ¬ position <+: r'.position) :
    LastRow (front ++ r :: after) position front.length := by
  refine ⟨⟨r, by simp, hbelow⟩, fun j r' hlt hr' => ?_⟩
  rw [List.getElem?_append_right (Nat.le_of_lt hlt)] at hr'
  obtain ⟨k, hk⟩ : ∃ k, j - front.length = k + 1 := ⟨j - front.length - 1, by omega⟩
  rw [hk, List.getElem?_cons_succ] at hr'
  exact hafter r' (List.mem_of_getElem? hr')

end LastRow

namespace Term

/-- The last row of a subterm belongs to its root and is the one that ends it. -/
theorem exists_lastRow {t u : Term} {q : List Part} (h : t.at? q = some u) :
    ∃ i, LastRow t.rows q i ∧ t.rows[i]? = some ⟨q, u, u.children ≠ []⟩ := by
  obtain ⟨before, after, hrows, hafter⟩ := exists_block h []
  obtain ⟨front, hfront⟩ := u.exists_rowsAt_eq_concat q
  rw [List.nil_append] at hrows hafter
  have hsplit : t.rows = (before ++ front) ++ ⟨q, u, u.children ≠ []⟩ :: after := by
    rw [rows, hrows, hfront]
    simp
  rw [hsplit]
  exact ⟨_, .of_split (List.prefix_refl q) hafter, by simp⟩

/-- Behind the last row of a node there is no row of a node below it. -/
theorem pairwise_rowsAt (t : Term) (position : List Part) :
    (t.rowsAt position).Pairwise fun r r' =>
      (r.closes ∨ r.node.children = []) → ¬ r.position <+: r'.position := by
  induction t generalizing position with
  | lit value | foreign node => exact List.pairwise_singleton _ _
  | ite c a b hc ha hb =>
      have apart {u v : Term} {x y : Part} (hne : x ≠ y) {r r' : Row}
          (hr : r ∈ u.rowsAt (position ++ [x])) (hr' : r' ∈ v.rowsAt (position ++ [y])) :
          ¬ r.position <+: r'.position := fun h =>
        hne (part_eq_of_prefixes ((prefix_of_mem_rowsAt hr).trans h) (prefix_of_mem_rowsAt hr'))
      have below {u : Term} {x : Part} {r : Row} (hr : r ∈ u.rowsAt (position ++ [x])) :
          ¬ r.position <+: position := fun h =>
        not_append_cons_prefix_self ((prefix_of_mem_rowsAt hr).trans h)
      rw [rowsAt, List.pairwise_cons, List.pairwise_append, List.pairwise_append,
        List.pairwise_append]
      refine ⟨fun r _ hends => ?_, ⟨⟨hc _, ha _, fun r hr r' hr' _ => ?_⟩, hb _,
        fun r hr r' hr' _ => ?_⟩, List.pairwise_singleton _ _, fun r hr r' hr' _ => ?_⟩
      · -- the row that shows the conditional is not its last one
        simp [children] at hends
      · exact apart (by decide) hr hr'
      · obtain hr | hr := List.mem_append.1 hr
        · exact apart (by decide) hr hr'
        · exact apart (by decide) hr hr'
      · obtain rfl := List.mem_singleton.1 hr'
        obtain hr | hr := List.mem_append.1 hr
        · obtain hr | hr := List.mem_append.1 hr
          · exact below hr
          · exact below hr
        · exact below hr

/-- A row that ends its node is the last row of the subterm at its position. -/
theorem lastRow_of_ends {t : Term} {i : Nat} {r : Row} (hr : t.rows[i]? = some r)
    (hends : r.closes ∨ r.node.children = []) : LastRow t.rows r.position i := by
  refine ⟨⟨r, hr, List.prefix_refl _⟩, fun j r' hlt hr' => ?_⟩
  obtain ⟨hi, rfl⟩ := List.getElem?_eq_some_iff.1 hr
  obtain ⟨hj, rfl⟩ := List.getElem?_eq_some_iff.1 hr'
  exact List.pairwise_iff_getElem.1 (t.pairwise_rowsAt []) i j hi hj hlt hends

/-- Exactly the rows that end their nodes are last rows of subterms. -/
theorem lastRow_iff {t : Term} {i : Nat} {r : Row} {q : List Part} (hr : t.rows[i]? = some r) :
    LastRow t.rows q i ↔ q = r.position ∧ (r.closes ∨ r.node.children = []) := by
  constructor
  · intro h
    obtain ⟨r', hr', hbelow⟩ := h.within
    obtain rfl : r' = r := Option.some.inj (hr'.symm.trans hr)
    obtain ⟨p, hp, hat⟩ := at?_of_mem_rowsAt (List.mem_of_getElem? hr)
    rw [hp] at hbelow
    obtain ⟨u, hu⟩ := exists_at?_of_prefix hat hbelow
    obtain ⟨j, hlast, hj⟩ := exists_lastRow hu
    obtain rfl := h.unique hlast
    obtain rfl : r' = _ := Option.some.inj (hr.symm.trans hj)
    refine ⟨rfl, ?_⟩
    by_cases hchildren : u.children = []
    · exact .inr hchildren
    · exact .inl (decide_eq_true hchildren)
  · rintro ⟨rfl, hends⟩
    exact lastRow_of_ends hr hends

end Term

/-! ## Listings -/

/-- The line shows a node, at its position and on some level: its form and its
canonical text. -/
def ShowsNode (level : Int) (n : List Part × Term) (line : Text) : Prop :=
  ∃ s rest, n.2.text = .ok s ∧
    line = Term.indentation (level + n.1.length) ++ n.2.form ++ "(expr='" ++ s ++ "'" ++ rest

/-- A line that does not close a list shows the node of its row. -/
theorem Row.Shows.showsNode {level : Int} {r : Row} {line : Text} (h : r.Shows level line)
    (hopen : r.closes = false) : ShowsNode level (r.position, r.node) line := by
  obtain ⟨body, hbody, rfl⟩ := h
  cases hbody with
  | literal position value =>
      exact ⟨spellBool value, ")" ++ separator position, rfl, by simp [Text.lit]⟩
  | header hs => exact ⟨_, ", nodes=[", hs, by simp [Text.lit]⟩
  | closing position t => contradiction

/-- The lines are a listing of the nodes of the term, on some level. -/
structure Listing (level : Nat) (t : Term) (lines : List Text) : Prop where
  /-- There is a line for each row. -/
  shows : List.Forall₂ (Row.Shows level) t.rows lines
  /-- So there is one line for each literal and two for each conditional. -/
  length_eq : lines.length = t.literals + 2 * t.conditionals
  /-- The lines that do not close lists show the nodes in preorder. -/
  nodes : List.Forall₂ (ShowsNode level) t.preorder (lines.filter fun line => !line.closesList)
  /-- A conditional is closed behind the last line of its last branch, with the
  indentation of the line that shows it. -/
  closing : ∀ (q : List Part) (c a b : Term), t.at? q = some (.ite c a b) →
    ∃ (i j : Nat) (head : Text),
      t.rows[i]? = some ⟨q, .ite c a b, false⟩ ∧ lines[i]? = some head ∧
      LastRow t.rows (q ++ [.elseBranch]) j ∧ t.rows[j + 1]? = some ⟨q, .ite c a b, true⟩ ∧
      lines[j + 1]? = some (List.replicate head.margin ' ' ++ ("])" ++ separator q))
  /-- The last lines of conditions and first branches end with commas, and no other
  lines do. -/
  commas : ∀ (i : Nat) (line : Text), lines[i]? = some line →
    (line.getLast? = some ',' ↔ ∃ q, Separated q ∧ LastRow t.rows q i)

namespace Term

/-- A conditional has a row that shows it, and one that closes it behind the last row
of its last branch. -/
theorem exists_rows_of_ite {t c a b : Term} {q : List Part} (h : t.at? q = some (ite c a b)) :
    ∃ i j : Nat, t.rows[i]? = some ⟨q, ite c a b, false⟩ ∧
      LastRow t.rows (q ++ [.elseBranch]) j ∧ t.rows[j + 1]? = some ⟨q, ite c a b, true⟩ := by
  obtain ⟨before, after, hrows, hafter⟩ := exists_block h []
  obtain ⟨front, hfront⟩ := b.exists_rowsAt_eq_concat (q ++ [.elseBranch])
  rw [List.nil_append] at hrows hafter
  have hfirst : t.rows[before.length]? = some ⟨q, ite c a b, false⟩ := by
    rw [rows, hrows, rowsAt]
    simp
  have hbehind : ∀ r ∈ (⟨q, ite c a b, true⟩ :: after : List Row),
      ¬ q ++ [.elseBranch] <+: r.position := by
    intro r hr hbelow
    obtain rfl | hr := List.mem_cons.1 hr
    · exact not_append_cons_prefix_self hbelow
    · exact hafter r hr ((List.prefix_append q _).trans hbelow)
  obtain ⟨earlier, hsplit⟩ : ∃ earlier, t.rows = earlier ++
      ⟨q ++ [.elseBranch], b, b.children ≠ []⟩ :: (⟨q, ite c a b, true⟩ :: after) := by
    refine ⟨before ++ ⟨q, ite c a b, false⟩ :: (c.rowsAt (q ++ [.condition]) ++
      a.rowsAt (q ++ [.thenBranch]) ++ front), ?_⟩
    rw [rows, hrows, rowsAt, hfront]
    simp
  refine ⟨before.length, earlier.length, hfirst, ?_, ?_⟩
  · rw [hsplit]
    exact .of_split (List.prefix_refl _) hbehind
  · rw [hsplit, List.getElem?_append_right (Nat.le_succ _)]
    simp

/-- A native term has a display, and the lines of the display show its rows. -/
theorem Native.exists_lines {t : Term} (h : t.Native) (level : Nat) :
    ∃ text, t.display level = .ok text ∧ text = Text.join ['\n'] (Text.lines text) ∧
      List.Forall₂ (Row.Shows level) t.rows (Text.lines text) := by
  obtain ⟨text, ls, htext, hshows, hjoin⟩ := h.exists_layout level []
  have hlines : ∀ l ∈ ls, l.IsLine := by
    intro l hl
    obtain ⟨r, hr, hshow⟩ := exists_left_of_mem hshows hl
    obtain ⟨q, -, hat⟩ := at?_of_mem_rowsAt hr
    exact hshow.isLine (h.of_at? hat)
  have hsep : separator [] = [] := rfl
  rw [hsep, List.append_nil] at hjoin
  rw [List.length_nil, Int.natCast_zero, Int.add_zero] at htext
  have hsplit : Text.lines text = ls := by rw [hjoin, Text.lines_join hlines]
  refine ⟨text, htext, ?_, ?_⟩
  · rw [hsplit, hjoin]
  · rw [hsplit]
    exact hshows

/-- Lines that show the rows of a native term are a listing of it. -/
theorem Native.listing {t : Term} (h : t.Native) {level : Nat} {lines : List Text}
    (hshows : List.Forall₂ (Row.Shows level) t.rows lines) : Listing level t lines where
  shows := hshows
  length_eq := by rw [← hshows.length_eq, rows, h.length_rowsAt]
  nodes := by
    have hfiltered : List.Forall₂ (Row.Shows level) (t.rows.filter fun r => !r.closes)
        (lines.filter fun line => !line.closesList) := by
      refine List.rel_filter (fun r line hline => ?_) hshows
      simpa using not_congr hline.closesList_iff.symm
    have hopen : ∀ r ∈ t.rows.filter fun r => !r.closes, r.closes = false := by simp
    rw [preorder, ← filter_rowsAt, List.forall₂_map_left_iff]
    exact ((List.forall₂_and_left _ _).2 ⟨hopen, hfiltered⟩).imp fun r line hline =>
      hline.2.showsNode hline.1
  closing := by
    intro q c a b hat
    obtain ⟨i, j, hi, hlast, hj⟩ := exists_rows_of_ite hat
    obtain ⟨head, hhead, hshead⟩ := exists_right_of_getElem? hshows hi
    obtain ⟨close, hclose, hsclose⟩ := exists_right_of_getElem? hshows hj
    refine ⟨i, j, head, hi, hhead, hlast, hj, ?_⟩
    obtain ⟨body, hbody, rfl⟩ := hsclose
    cases hbody
    rw [hclose, hshead.margin_eq, indentation_eq_replicate]
  commas := by
    intro i line hline
    obtain ⟨r, hr, hshow⟩ := exists_left_of_getElem? hshows hline
    rw [hshow.getLast?_eq_comma_iff]
    constructor
    · rintro ⟨hends, hseparated⟩
      exact ⟨r.position, hseparated, (lastRow_iff hr).2 ⟨rfl, hends⟩⟩
    · rintro ⟨q, hseparated, hlast⟩
      obtain ⟨rfl, hends⟩ := (lastRow_iff hr).1 hlast
      exact ⟨hends, hseparated⟩

end Term

/-- **The display is a listing of the nodes in preorder.**  A native term has a display
on every level, and its lines are a listing of the term.  They are those of the display
on the lowest level, moved to the right by four columns for each level. -/
theorem display_lists {t : Term} (h : t.Native) (level : Nat) :
    ∃ text plain, t.display level = .ok text ∧ t.display 0 = .ok plain ∧
      text = Text.join ['\n'] (Text.lines text) ∧ plain = Text.join ['\n'] (Text.lines plain) ∧
      Text.lines text = (Text.lines plain).map (List.replicate (4 * level) ' ' ++ ·) ∧
      Listing level t (Text.lines text) := by
  obtain ⟨text, htext, hjoin, hshows⟩ := h.exists_lines level
  obtain ⟨plain, hplain, hjoin', hshows'⟩ := h.exists_lines 0
  have hmoved := List.forall₂_map_right_iff.2 (hshows'.imp fun r line hline => hline.shift level)
  exact ⟨text, plain, htext, hplain, hjoin, hjoin',
    List.right_unique_forall₂' (rightUnique_shows level) hshows hmoved, h.listing hshows⟩

theorem display_lists_within :
    conditionalWithin.Native ∧ ∃ text plain, conditionalWithin.display (2 : Nat) = .ok text ∧
      conditionalWithin.display 0 = .ok plain ∧
      Text.lines text = (Text.lines plain).map (List.replicate 8 ' ' ++ ·) ∧
      (Text.lines text).length = 13 ∧ Listing 2 conditionalWithin (Text.lines text) := by
  have hnative : conditionalWithin.Native := by simp [conditionalWithin, Term.Native]
  obtain ⟨text, plain, htext, hplain, -, -, hmoved, hlisting⟩ := display_lists hnative 2
  exact ⟨hnative, text, plain, htext, hplain, hmoved, hlisting.length_eq, hlisting⟩

end Conditional
