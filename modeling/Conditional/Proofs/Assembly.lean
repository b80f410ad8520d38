import Conditional.Proofs.Balance

/-!
# Conditional.Proofs.Assembly

How physical lines make up statements.  The lines of a statement are known by
their parentheses alone: behind each line but the last, more are open than
closed (`LogicalLine.Closes`).  So the lines of a file fall into blank lines
between statements, the lines of one statement after the other, and possibly
those of a statement that the file does not finish (`LogicalLine.Groups`).

Every list of lines falls into groups (`exists_groups`), and assembling gives
one statement for each of them (`assemble_eq_ok_iff`); in particular it never
fails.  A statement carries the number of its first line
(`Groups.exists_first_line`), so the numbers ascend (`Groups.pairwise_number`).
-/

namespace Conditional

namespace LogicalLine

/-! ## The lines of a statement -/

/-- Behind each of the lines more parentheses are open than closed, if the
excess in front of them is the given one. -/
def StaysOpen : Int → List Text → Prop
  | _, [] => True
  | excess, line :: lines => 0 < excess + line.excess ∧ StaysOpen (excess + line.excess) lines

/-- The last of the lines is the first one behind which no more parentheses
are open than closed, if the excess in front of them is the given one. -/
inductive Closes : Int → List Text → Prop where
  | last {excess : Int} {line : Text} : excess + line.excess ≤ 0 → Closes excess [line]
  | more {excess : Int} {line : Text} {lines : List Text} :
      0 < excess + line.excess → Closes (excess + line.excess) lines →
      Closes excess (line :: lines)

/-- Lines stay open to their end, or up to a line that closes them. -/
theorem staysOpen_or_closes (excess : Int) (lines : List Text) :
    StaysOpen excess lines ∨ ∃ front rest, lines = front ++ rest ∧ Closes excess front := by
  induction lines generalizing excess with
  | nil => exact .inl trivial
  | cons line lines ih =>
      by_cases hopen : 0 < excess + line.excess
      · obtain hstays | ⟨front, rest, rfl, hcloses⟩ := ih (excess + line.excess)
        · exact .inl ⟨hopen, hstays⟩
        · exact .inr ⟨line :: front, rest, rfl, .more hopen hcloses⟩
      · exact .inr ⟨[line], lines, rfl, .last (Int.not_lt.1 hopen)⟩

/-- The text of the statement that stands on the lines. -/
def joined (first : Text) (more : List Text) : Text := more.foldl continued (Text.trimEnd first)

theorem excess_foldl_of_staysOpen {t : Text} {lines : List Text} (ht : 0 < t.excess)
    (h : StaysOpen t.excess lines) : 0 < Text.excess (lines.foldl continued t) := by
  induction lines generalizing t with
  | nil => exact ht
  | cons line lines ih =>
      have hexcess := excess_continued t line
      obtain ⟨hopen, hrest⟩ := h
      rw [← hexcess] at hopen hrest
      exact ih hopen hrest

/-- A text is the beginning of the statement that it is continued to, and a
blank stands behind it there. -/
theorem exists_foldl_continued (t : Text) (lines : List Text) :
    lines.foldl continued t = t ∨ ∃ rest, lines.foldl continued t = t ++ ' ' :: rest := by
  induction lines generalizing t with
  | nil => exact .inl rfl
  | cons line lines ih =>
      obtain h | ⟨rest, h⟩ := ih (continued t line)
      · exact .inr ⟨Text.trim line, h⟩
      · refine .inr ⟨Text.trim line ++ ' ' :: rest, ?_⟩
        rw [List.foldl_cons, h, continued, List.append_assoc, List.cons_append]

/-- A statement that its lines leave open is open. -/
theorem excess_joined_of_staysOpen {first : Text} {more : List Text}
    (h : StaysOpen 0 (first :: more)) : 0 < (joined first more).excess := by
  obtain ⟨hpos, hrest⟩ := h
  rw [Int.zero_add, ← Text.excess_trimEnd] at hpos hrest
  exact excess_foldl_of_staysOpen hpos hrest

/-! ## Taking in a line -/

theorem take_blank {line : Text} (h : line.Blank) (statements : List LogicalLine)
    (number : Int) : take statements false line number = .ok (statements, []) := by
  rw [take, Text.trimEnd_eq_nil_iff.2 h]
  rfl

theorem take_first {line : Text} (h : ¬ line.Blank) (statements : List LogicalLine)
    (number : Int) :
    take statements false line number =
      .ok (statements ++ [⟨Text.trimEnd line, number⟩], Text.trimEnd line) := by
  have hne : Text.trimEnd line ≠ [] := fun hnil => h (Text.trimEnd_eq_nil_iff.1 hnil)
  simp [take, hne]

theorem take_continued (before : List LogicalLine) (statement : LogicalLine) (line : Text)
    (number : Int) :
    take (before ++ [statement]) true line number =
      .ok (before ++ [⟨continued statement.text line, statement.number⟩],
        continued statement.text line) := by
  have htrim : continued statement.text (Text.trimEnd line) = continued statement.text line := by
    rw [continued, continued, Text.trim_trimEnd]
  simp [take, htrim]

/-- Taking in a line, and then the others. -/
theorem assembleFrom_cons {statements statements' : List LogicalLine} {goesOn : Bool}
    {number : Int} {line text : Text}
    (h : take statements goesOn line number = .ok (statements', text)) (lines : List Text) :
    assembleFrom statements goesOn number (line :: lines) =
      assembleFrom statements' (isOpen text) (number + 1) lines := by
  rw [assembleFrom, h]
  rfl

/-! ## Taking in the lines of a statement -/

theorem isOpen_eq_true {t : Text} (h : 0 < t.excess) : isOpen t = true := isOpen_iff.2 h

theorem isOpen_eq_false {t : Text} (h : t.excess ≤ 0) : isOpen t = false := by
  rw [Bool.eq_false_iff]
  intro hopen
  exact absurd (isOpen_iff.1 hopen) (Int.not_lt.2 h)

/-- The lines that close a statement are joined to it. -/
theorem assembleFrom_of_closes (statement : LogicalLine) {lines : List Text}
    (h : Closes statement.text.excess lines) (before : List LogicalLine) (number : Int)
    (rest : List Text) :
    assembleFrom (before ++ [statement]) true number (lines ++ rest) =
      assembleFrom (before ++ [⟨lines.foldl continued statement.text, statement.number⟩]) false
        (number + lines.length) rest := by
  generalize hexcess : statement.text.excess = excess at h
  induction h generalizing statement number with
  | @last excess line hclosed =>
      rw [← hexcess, ← excess_continued] at hclosed
      rw [List.cons_append, assembleFrom_cons (take_continued ..), isOpen_eq_false hclosed]
      rfl
  | @more excess line lines hopen _ ih =>
      rw [← hexcess, ← excess_continued] at hopen ih
      rw [List.cons_append, assembleFrom_cons (take_continued ..), isOpen_eq_true hopen,
        ih ⟨continued statement.text line, statement.number⟩ _ rfl,
        List.length_cons, List.foldl_cons, Int.add_assoc, Int.add_comm 1, Int.natCast_succ]

/-- The lines that leave a statement open are joined to it. -/
theorem assembleFrom_of_staysOpen (statement : LogicalLine) {lines : List Text}
    (h : StaysOpen statement.text.excess lines) (before : List LogicalLine) (number : Int) :
    assembleFrom (before ++ [statement]) true number lines =
      .ok (before ++ [⟨lines.foldl continued statement.text, statement.number⟩]) := by
  induction lines generalizing statement number with
  | nil => rfl
  | cons line lines ih =>
      obtain ⟨hopen, hrest⟩ := h
      rw [← excess_continued] at hopen hrest
      rw [assembleFrom_cons (take_continued ..), isOpen_eq_true hopen,
        ih ⟨continued statement.text line, statement.number⟩ hrest]
      rfl

/-- Lines that close what they begin are one statement, numbered with the
first of them. -/
theorem assembleFrom_statement {first : Text} {more : List Text} (hfirst : ¬ first.Blank)
    (h : Closes 0 (first :: more)) (before : List LogicalLine) (number : Int)
    (rest : List Text) :
    assembleFrom before false number (first :: more ++ rest) =
      assembleFrom (before ++ [⟨joined first more, number⟩]) false
        (number + (more.length + 1 : Nat)) rest := by
  rw [List.cons_append, assembleFrom_cons (take_first hfirst ..)]
  cases h with
  | last hclosed =>
      rw [Int.zero_add, ← Text.excess_trimEnd] at hclosed
      rw [isOpen_eq_false hclosed]
      rfl
  | more hopen hcloses =>
      rw [Int.zero_add, ← Text.excess_trimEnd] at hopen hcloses
      have hmore := assembleFrom_of_closes ⟨Text.trimEnd first, number⟩ hcloses
        before (number + 1) rest
      rw [isOpen_eq_true hopen, hmore, joined]
      congr 1
      omega

/-! ## Groups of lines -/

/-- The lines, the first of which has the given number, fall into groups, and
these are the lines of the statements; blank lines stand between the groups,
and the last group may be unfinished. -/
inductive Groups : Int → List Text → List LogicalLine → Prop where
  | nil {number : Int} : Groups number [] []
  | blank {number : Int} {line : Text} {lines : List Text} {statements : List LogicalLine} :
      line.Blank → Groups (number + 1) lines statements →
      Groups number (line :: lines) statements
  | statement {number : Int} {first : Text} {more rest : List Text}
      {statements : List LogicalLine} :
      ¬ first.Blank → Closes 0 (first :: more) →
      Groups (number + (more.length + 1 : Nat)) rest statements →
      Groups number (first :: more ++ rest) (⟨joined first more, number⟩ :: statements)
  | unfinished {number : Int} {first : Text} {more : List Text} :
      ¬ first.Blank → StaysOpen 0 (first :: more) →
      Groups number (first :: more) [⟨joined first more, number⟩]

/-- Lines fall into groups. -/
theorem exists_groups (number : Int) (lines : List Text) :
    ∃ statements, Groups number lines statements := by
  -- on the number of lines, because a statement takes away all of its lines
  induction hn : lines.length using Nat.strongRecOn generalizing number lines with
  | _ n ih =>
      cases lines with
      | nil => exact ⟨[], .nil⟩
      | cons first lines =>
          rw [List.length_cons] at hn
          by_cases hfirst : first.Blank
          · obtain ⟨statements, h⟩ := ih lines.length (by omega) (number + 1) lines rfl
            exact ⟨statements, .blank hfirst h⟩
          · obtain hopen | ⟨front, rest, hlines, hcloses⟩ :=
              staysOpen_or_closes 0 (first :: lines)
            · exact ⟨_, .unfinished hfirst hopen⟩
            · cases front with
              | nil => cases hcloses
              | cons line more =>
                  rw [List.cons_append] at hlines
                  obtain ⟨rfl, rfl⟩ := List.cons.inj hlines
                  rw [List.length_append] at hn
                  obtain ⟨statements, h⟩ := ih rest.length (by omega) _ rest rfl
                  exact ⟨_, .statement hfirst hcloses h⟩

/-- Assembling gives the statements of the groups. -/
theorem Groups.assembleFrom_eq {number : Int} {lines : List Text}
    {statements : List LogicalLine} (h : Groups number lines statements)
    (before : List LogicalLine) :
    assembleFrom before false number lines = .ok (before ++ statements) := by
  induction h generalizing before with
  | nil =>
      rw [List.append_nil]
      rfl
  | blank hblank _ ih =>
      rw [assembleFrom_cons (take_blank hblank ..)]
      exact ih before
  | statement hfirst hcloses _ ih =>
      rw [assembleFrom_statement hfirst hcloses, ih, List.append_assoc, List.singleton_append]
  | @unfinished number first more hfirst hopen =>
      obtain ⟨hpos, hrest⟩ := hopen
      rw [Int.zero_add, ← Text.excess_trimEnd] at hpos hrest
      rw [assembleFrom_cons (take_first hfirst ..), isOpen_eq_true hpos,
        assembleFrom_of_staysOpen ⟨Text.trimEnd first, number⟩ hrest]
      rfl

/-- Assembling never fails, and what it gives are the statements into which
the lines fall. -/
theorem assemble_eq_ok_iff {lines : List Text} {statements : List LogicalLine} :
    assemble lines = .ok statements ↔ Groups 1 lines statements := by
  have heq {found : List LogicalLine} (hfound : Groups 1 lines found) :
      assemble lines = .ok found := hfound.assembleFrom_eq []
  constructor
  · intro h
    obtain ⟨found, hfound⟩ := exists_groups 1 lines
    rw [heq hfound] at h
    obtain rfl := Except.ok.inj h
    exact hfound
  · exact heq

/-! ## Numbers and first lines -/

theorem Groups.le_number {number : Int} {lines : List Text} {statements : List LogicalLine}
    (h : Groups number lines statements) : ∀ s ∈ statements, number ≤ s.number := by
  induction h with
  | nil => simp
  | blank _ _ ih =>
      intro s hs
      have hle := ih s hs
      omega
  | statement _ _ _ ih =>
      intro s hs
      obtain rfl | hs := List.mem_cons.1 hs
      · exact Int.le_refl _
      · have hle := ih s hs
        omega
  | unfinished _ _ => simp

/-- The numbers of the statements ascend. -/
theorem Groups.pairwise_number {number : Int} {lines : List Text}
    {statements : List LogicalLine} (h : Groups number lines statements) :
    statements.Pairwise fun s s' => s.number < s'.number := by
  induction h with
  | nil => exact .nil
  | blank _ _ ih => exact ih
  | statement _ _ hrest ih =>
      refine .cons (fun s hs => ?_) ih
      have hle := hrest.le_number s hs
      simp only
      omega
  | unfinished _ _ => exact List.pairwise_singleton _ _

theorem trimEnd_prefix_joined (first : Text) (more : List Text) :
    Text.trimEnd first <+: joined first more := by
  obtain h | ⟨rest, h⟩ := exists_foldl_continued (Text.trimEnd first) more
  · exact ⟨[], by rw [joined, h, List.append_nil]⟩
  · rw [joined, h]
    exact List.prefix_append ..

/-- A statement begins with the line that has its number: the lines before it
make up the statements before it, and its text begins with that line. -/
theorem Groups.exists_first_line {number : Int} {lines : List Text}
    {earlier later : List LogicalLine} {s : LogicalLine}
    (h : Groups number lines (earlier ++ s :: later)) :
    ∃ before first after, lines = before ++ first :: after ∧
      s.number = number + before.length ∧ Groups number before earlier ∧ ¬ first.Blank ∧
      Text.trimEnd first <+: s.text := by
  generalize hstatements : earlier ++ s :: later = statements at h
  induction h generalizing earlier with
  | nil => simp at hstatements
  | @blank number line lines statements hblank _ ih =>
      obtain ⟨before, first, after, rfl, hnumber, hgroups, hfirst⟩ := ih hstatements
      refine ⟨line :: before, first, after, rfl, ?_, .blank hblank hgroups, hfirst⟩
      rw [hnumber, List.length_cons]
      omega
  | @statement number first more rest statements hfirst hcloses _ ih =>
      cases earlier with
      | nil =>
          obtain ⟨rfl, rfl⟩ := List.cons.inj hstatements
          exact ⟨[], first, more ++ rest, rfl, (Int.add_zero _).symm, .nil, hfirst,
            trimEnd_prefix_joined first more⟩
      | cons s₀ earlier =>
          obtain ⟨rfl, htail⟩ := List.cons.inj hstatements
          obtain ⟨before, first', after, rfl, hnumber, hgroups, hfirst'⟩ := ih htail
          refine ⟨first :: more ++ before, first', after, by simp, ?_,
            .statement hfirst hcloses hgroups, hfirst'⟩
          rw [hnumber, List.length_append, List.length_cons]
          omega
  | @unfinished number first more hfirst _ =>
      cases earlier with
      | nil =>
          obtain ⟨rfl, rfl⟩ := List.cons.inj hstatements
          exact ⟨[], first, more, rfl, (Int.add_zero _).symm, .nil, hfirst,
            trimEnd_prefix_joined first more⟩
      | cons s₀ earlier => simp at hstatements

/-- Statements have a text. -/
theorem Groups.text_ne_nil {number : Int} {lines : List Text} {statements : List LogicalLine}
    (h : Groups number lines statements) : ∀ s ∈ statements, s.text ≠ [] := by
  intro s hs
  obtain ⟨earlier, later, rfl⟩ := List.append_of_mem hs
  obtain ⟨before, first, after, -, -, -, hfirst, hprefix⟩ := h.exists_first_line
  intro hnil
  rw [hnil, List.prefix_nil] at hprefix
  exact hfirst (Text.trimEnd_eq_nil_iff.1 hprefix)

end LogicalLine

end Conditional
