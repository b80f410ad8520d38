import Conditional.Proofs.Assembly
import Mathlib.Data.List.Forall2

/-!
# Conditional.Proofs.Partition

The statements of a file partition its lines.  Each statement stands on a
stretch of consecutive lines (`LogicalLine.StandsOn`): the first of them gives
it its number, what they have added up to is open behind each of them but the
last, and behind the last one it is not, unless the file ends there.  The
stretches do not overlap, and the lines outside all of them are blank
(`LogicalLine.Partition`).

That much is read off the groups into which the lines fall.  What the groups
do not show is what a reader of the lines is told on the way, namely whether
the statement goes on on the next line; here the invariant is that this is
asked of the last statement so far (`LogicalLine.Announces`), and it is also
the reason why there always is a statement to which a line can be joined.
-/

namespace Conditional

/-! ## Text without whitespace -/

namespace Text

/-- The text without its whitespace. -/
def eraseSpace (t : Text) : Text := t.filter fun c => !isSpace c

theorem eraseSpace_append (t t' : Text) :
    eraseSpace (t ++ t') = t.eraseSpace ++ t'.eraseSpace := List.filter_append ..

theorem eraseSpace_of_blank {t : Text} (h : Blank t) : t.eraseSpace = [] := by
  rw [eraseSpace, List.filter_eq_nil_iff]
  intro c hc
  simp [h c hc]

@[simp] theorem eraseSpace_trimEnd (t : Text) : eraseSpace (trimEnd t) = t.eraseSpace := by
  obtain ⟨w, hw, ht⟩ := exists_trimEnd t
  conv_rhs => rw [ht]
  rw [eraseSpace_append, eraseSpace_of_blank hw, List.append_nil]

@[simp] theorem eraseSpace_trim (t : Text) : eraseSpace (trim t) = t.eraseSpace := by
  obtain ⟨v, w, hv, hw, ht⟩ := exists_trim t
  conv_rhs => rw [ht]
  rw [eraseSpace_append, eraseSpace_append, eraseSpace_of_blank hv, eraseSpace_of_blank hw,
    List.append_nil, List.nil_append]

end Text

namespace LogicalLine

/-- Joining lines adds and removes nothing but whitespace. -/
theorem eraseSpace_foldl_continued (t : Text) (lines : List Text) :
    Text.eraseSpace (lines.foldl continued t) = t.eraseSpace ++ Text.eraseSpace lines.flatten := by
  induction lines generalizing t with
  | nil => exact (List.append_nil _).symm
  | cons line lines ih =>
      have hspace : Text.eraseSpace (' ' :: Text.trim line) = line.eraseSpace :=
        Text.eraseSpace_trim line
      rw [List.foldl_cons, ih, continued, Text.eraseSpace_append, hspace, List.flatten_cons,
        Text.eraseSpace_append, List.append_assoc]

theorem eraseSpace_joined (first : Text) (more : List Text) :
    Text.eraseSpace (joined first more) = Text.eraseSpace (first :: more).flatten := by
  rw [joined, eraseSpace_foldl_continued, Text.eraseSpace_trimEnd, List.flatten_cons,
    Text.eraseSpace_append]

/-- Neither does assembling. -/
theorem Groups.eraseSpace_eq {number : Int} {lines : List Text} {statements : List LogicalLine}
    (h : Groups number lines statements) :
    Text.eraseSpace (statements.map text).flatten = Text.eraseSpace lines.flatten := by
  induction h with
  | nil => rfl
  | blank hblank _ ih =>
      rw [ih, List.flatten_cons, Text.eraseSpace_append, Text.eraseSpace_of_blank hblank,
        List.nil_append]
  | statement _ _ _ ih =>
      rw [List.map_cons, List.flatten_cons, Text.eraseSpace_append, ih, eraseSpace_joined,
        List.flatten_append, Text.eraseSpace_append]
  | unfinished _ _ =>
      rw [List.map_singleton, List.flatten_singleton, eraseSpace_joined]

/-! ## Whether a statement goes on -/

/-- Takes in lines one after another.  Beside the statements, this answers
whether the last of them goes on. -/
def takeAll (statements : List LogicalLine) (goesOn : Bool) (number : Int) :
    List Text → Except Fault (List LogicalLine × Bool)
  | [] => .ok (statements, goesOn)
  | line :: lines => do
    let (statements, text) ← take statements goesOn line number
    takeAll statements (isOpen text) (number + 1) lines

/-- Taking in lines is assembling them. -/
theorem map_fst_takeAll (statements : List LogicalLine) (goesOn : Bool) (number : Int)
    (lines : List Text) :
    (takeAll statements goesOn number lines).map Prod.fst =
      assembleFrom statements goesOn number lines := by
  induction lines generalizing statements goesOn number with
  | nil => rfl
  | cons line lines ih =>
      rw [takeAll, assembleFrom]
      cases take statements goesOn line number with
      | error f => rfl
      | ok taken => exact ih taken.1 (isOpen taken.2) (number + 1)

/-- A statement is announced to go on exactly if there is a last one and it is
open. -/
def Announces (goesOn : Bool) (statements : List LogicalLine) : Prop :=
  goesOn = true ↔ ∃ last ∈ statements.getLast?, isOpen last.text = true

theorem announces_concat (before : List LogicalLine) (text : Text) (number : Int) :
    Announces (isOpen text) (before ++ [⟨text, number⟩]) := by simp [Announces]

/-- A line can be taken in, and then the announcement is right again. -/
theorem Announces.exists_take {statements : List LogicalLine} {goesOn : Bool}
    (h : Announces goesOn statements) (line : Text) (number : Int) :
    ∃ statements' text, take statements goesOn line number = .ok (statements', text) ∧
      Announces (isOpen text) statements' := by
  cases goesOn with
  | true =>
      obtain ⟨last, hlast, -⟩ := h.1 rfl
      obtain ⟨before, rfl⟩ := List.getLast?_eq_some_iff.1 hlast
      exact ⟨_, _, take_continued before last line number, announces_concat ..⟩
  | false =>
      by_cases hblank : line.Blank
      · exact ⟨statements, [], take_blank hblank statements number, h⟩
      · exact ⟨_, _, take_first hblank statements number, announces_concat ..⟩

/-- Lines can be taken in, and the last announcement is right. -/
theorem Announces.exists_takeAll {statements : List LogicalLine} {goesOn : Bool}
    (h : Announces goesOn statements) (number : Int) (lines : List Text) :
    ∃ statements' goesOn', takeAll statements goesOn number lines = .ok (statements', goesOn') ∧
      Announces goesOn' statements' := by
  induction lines generalizing statements goesOn number with
  | nil => exact ⟨statements, goesOn, rfl, h⟩
  | cons line lines ih =>
      obtain ⟨taken, text, htake, htaken⟩ := h.exists_take line number
      obtain ⟨statements', goesOn', hrest, hstatements'⟩ := ih htaken (number + 1)
      refine ⟨statements', goesOn', ?_, hstatements'⟩
      rw [takeAll, htake]
      exact hrest

/-! ## Where the lines of a statement end -/

theorem StaysOpen.take {excess : Int} {lines : List Text} (h : StaysOpen excess lines) (k : Nat) :
    StaysOpen excess (lines.take k) := by
  induction lines generalizing excess k with
  | nil => rwa [List.take_nil]
  | cons line lines ih =>
      cases k with
      | zero => exact trivial
      | succ k => exact ⟨h.1, ih h.2 k⟩

/-- All lines but the last leave a statement open. -/
theorem Closes.staysOpen_take {excess : Int} {lines : List Text} (h : Closes excess lines)
    {k : Nat} (hk : k < lines.length) : StaysOpen excess (lines.take k) := by
  induction h generalizing k with
  | last _ =>
      obtain rfl : k = 0 := by simpa using hk
      exact trivial
  | more hopen _ ih =>
      cases k with
      | zero => exact trivial
      | succ k => exact ⟨hopen, ih (Nat.lt_of_succ_lt_succ hk)⟩

theorem excess_foldl_of_closes {t : Text} {lines : List Text} (h : Closes t.excess lines) :
    Text.excess (lines.foldl continued t) ≤ 0 := by
  generalize hexcess : t.excess = excess at h
  induction h generalizing t with
  | last hclosed =>
      rw [← hexcess, ← excess_continued] at hclosed
      exact hclosed
  | @more _ line _ _ _ ih =>
      refine ih (t := continued t line) ?_
      rw [excess_continued, hexcess]

/-- A statement that its lines close is not open. -/
theorem excess_joined_of_closes {first : Text} {more : List Text}
    (h : Closes 0 (first :: more)) : (joined first more).excess ≤ 0 := by
  cases h with
  | last hclosed =>
      rw [Int.zero_add, ← Text.excess_trimEnd] at hclosed
      exact hclosed
  | more _ hcloses =>
      rw [Int.zero_add, ← Text.excess_trimEnd] at hcloses
      exact excess_foldl_of_closes hcloses

/-- The text that lines add up to. -/
def accumulated : List Text → Text
  | [] => []
  | first :: more => joined first more

/-- As long as lines leave a statement open, it is open. -/
theorem isOpen_accumulated_take {first : Text} {more : List Text} {k : Nat} (hk : 0 < k)
    (h : StaysOpen 0 ((first :: more).take k)) :
    isOpen (accumulated ((first :: more).take k)) = true := by
  obtain ⟨k, rfl⟩ := Nat.exists_eq_add_one_of_ne_zero (Nat.ne_of_gt hk)
  rw [List.take_succ_cons] at h ⊢
  exact isOpen_eq_true (excess_joined_of_staysOpen h)

/-! ## Stretches of lines -/

/-- A place in a list of lines: so many lines, after so many others. -/
structure Stretch where
  start : Nat
  size : Nat
deriving DecidableEq, Repr

namespace Stretch

/-- The number of lines up to the end of the stretch. -/
def stop (r : Stretch) : Nat := r.start + r.size

/-- The line with the index, counted from zero, is in the stretch. -/
def Covers (r : Stretch) (i : Nat) : Prop := r.start ≤ i ∧ i < r.stop

/-- The lines in the stretch. -/
def of (r : Stretch) (lines : List Text) : List Text := (lines.drop r.start).take r.size

theorem of_append (before own after : List Text) :
    Stretch.of ⟨before.length, own.length⟩ (before ++ (own ++ after)) = own := by
  rw [of, List.drop_left, List.take_left]

end Stretch

/-- The statement is the one on the stretch of lines.  The first of these is
not blank and gives it its number.  It goes on up to the last of them, and
there it ends, or else the file does. -/
structure StandsOn (lines : List Text) (s : LogicalLine) (r : Stretch) : Prop where
  size_pos : 0 < r.size
  stop_le : r.stop ≤ lines.length
  number_eq : s.number = r.start + 1
  text_eq : s.text = accumulated (r.of lines)
  first_not_blank : ∀ line, lines[r.start]? = some line → ¬ line.Blank
  goes_on : ∀ k, 0 < k → k < r.size → isOpen (accumulated ((r.of lines).take k)) = true
  ends : isOpen s.text = true → r.stop = lines.length

/-- The stretches are those of the statements, one after another, and each
line that is not blank is in exactly one of them.  Only the last statement may
be unfinished. -/
structure Partition (lines : List Text) (statements : List LogicalLine) (stretches : List Stretch) :
    Prop where
  stands_on : List.Forall₂ (StandsOn lines) statements stretches
  apart : stretches.Pairwise fun r r' => r.stop ≤ r'.start
  covers : ∀ i line, lines[i]? = some line → ¬ line.Blank → ∃! r, r ∈ stretches ∧ r.Covers i
  finished : ∀ s ∈ statements.dropLast, isOpen s.text = false

section

variable {before own after : List Text} {first : Text} {more : List Text}

/-- The lines of a group are a stretch. -/
theorem standsOn_of_group (hfirst : ¬ first.Blank)
    (hopen : ∀ k, 0 < k → k < more.length + 1 → StaysOpen 0 ((first :: more).take k))
    (hends : 0 < (joined first more).excess → after = []) :
    StandsOn (before ++ (first :: more ++ after)) ⟨joined first more, before.length + 1⟩
      ⟨before.length, more.length + 1⟩ := by
  have hown := Stretch.of_append before (first :: more) after
  rw [List.length_cons] at hown
  refine
    { size_pos := Nat.succ_pos _
      stop_le := by simp [Stretch.stop]
      number_eq := rfl
      text_eq := by rw [hown]; rfl
      first_not_blank := fun line hline => ?_
      goes_on := fun k hpos hlt => ?_
      ends := fun hisOpen => ?_ }
  · obtain rfl : first = line := by simpa using hline
    exact hfirst
  · rw [hown]
    exact isOpen_accumulated_take hpos (hopen k hpos hlt)
  · rw [hends (isOpen_iff.1 hisOpen)]
    simp [Stretch.stop]

end

/-- The statements of groups stand on stretches, which cover the lines that
are not blank. -/
theorem Groups.exists_stretches {number : Int} {lines : List Text}
    {statements : List LogicalLine} (h : Groups number lines statements) (before : List Text)
    (hnumber : number = before.length + 1) :
    ∃ stretches, List.Forall₂ (StandsOn (before ++ lines)) statements stretches ∧
      (∀ r ∈ stretches, before.length ≤ r.start) ∧
      stretches.Pairwise (fun r r' => r.stop ≤ r'.start) ∧
      ∀ i line, before.length ≤ i → (before ++ lines)[i]? = some line → ¬ line.Blank →
        ∃ r ∈ stretches, r.Covers i := by
  induction h generalizing before with
  | nil =>
      refine ⟨[], .nil, by simp, .nil, fun i line hi hline _ => ?_⟩
      rw [List.append_nil, List.getElem?_eq_none hi] at hline
      contradiction
  | @blank number line lines statements hblank _ ih =>
      have hlength : (before ++ [line]).length = before.length + 1 := List.length_append
      obtain ⟨stretches, hstands, hstart, hapart, hcovers⟩ :=
        ih (before ++ [line]) (by rw [hlength, hnumber]; rfl)
      rw [List.append_assoc, List.singleton_append] at hstands hcovers
      rw [hlength] at hstart hcovers
      refine ⟨stretches, hstands, fun r hr => Nat.le_of_succ_le (hstart r hr), hapart,
        fun i line' hi hline' hfull => ?_⟩
      obtain rfl | hlt := Nat.eq_or_lt_of_le hi
      · obtain rfl : line = line' := by simpa using hline'
        exact absurd hblank hfull
      · exact hcovers i line' hlt hline' hfull
  | @statement number first more rest statements hfirst hcloses _ ih =>
      have hlength : (before ++ (first :: more)).length = before.length + (more.length + 1) :=
        List.length_append
      obtain ⟨stretches, hstands, hstart, hapart, hcovers⟩ :=
        ih (before ++ (first :: more)) (by rw [hlength, hnumber]; omega)
      rw [List.append_assoc] at hstands hcovers
      rw [hlength] at hstart hcovers
      have hclosed := excess_joined_of_closes hcloses
      have hown : StandsOn (before ++ (first :: more ++ rest)) _ _ :=
        standsOn_of_group hfirst (fun k _ hlt => hcloses.staysOpen_take hlt)
          (fun hpos => by omega)
      subst hnumber
      refine ⟨⟨before.length, more.length + 1⟩ :: stretches, .cons hown hstands, ?_,
        .cons hstart hapart, fun i line hi hline hfull => ?_⟩
      · rw [List.forall_mem_cons]
        exact ⟨Nat.le_refl _, fun r hr => Nat.le_trans (Nat.le_add_right ..) (hstart r hr)⟩
      · by_cases hlt : i < before.length + (more.length + 1)
        · exact ⟨_, List.mem_cons_self, hi, hlt⟩
        · obtain ⟨r, hr, hi'⟩ := hcovers i line (Nat.le_of_not_lt hlt) hline hfull
          exact ⟨r, List.mem_cons_of_mem _ hr, hi'⟩
  | @unfinished number first more hfirst hopen =>
      have hown : StandsOn (before ++ (first :: more ++ [])) _ _ :=
        standsOn_of_group hfirst (fun k _ _ => hopen.take k) (fun _ => rfl)
      rw [List.append_nil] at hown
      subst hnumber
      refine ⟨[⟨before.length, more.length + 1⟩], .cons hown .nil, by simp,
        List.pairwise_singleton _ _, fun i line hi hline _ => ?_⟩
      have hlt : i < (before ++ first :: more).length := (List.getElem?_eq_some_iff.1 hline).1
      rw [List.length_append, List.length_cons] at hlt
      exact ⟨_, List.mem_singleton_self _, hi, hlt⟩

/-- Only the last statement of groups may be unfinished. -/
theorem Groups.isOpen_of_mem_dropLast {number : Int} {lines : List Text}
    {statements : List LogicalLine} (h : Groups number lines statements) :
    ∀ s ∈ statements.dropLast, isOpen s.text = false := by
  induction h with
  | nil => simp
  | blank _ _ ih => exact ih
  | @statement number first more rest statements _ hcloses _ ih =>
      intro s hs
      cases statements with
      | nil => simp at hs
      | cons next statements =>
          rw [List.dropLast_cons_cons] at hs
          obtain rfl | hs := List.mem_cons.1 hs
          · exact isOpen_eq_false (excess_joined_of_closes hcloses)
          · exact ih s hs
  | unfinished _ _ => simp

/-- Stretches that stand apart do not share a line. -/
theorem Stretch.eq_of_covers {stretches : List Stretch}
    (h : stretches.Pairwise fun r r' => r.stop ≤ r'.start) {i : Nat} {r r' : Stretch}
    (hr : r ∈ stretches) (hi : r.Covers i) (hr' : r' ∈ stretches) (hi' : r'.Covers i) :
    r = r' := by
  have hnot {a b : Stretch} (hle : a.stop ≤ b.start) (ha : a.Covers i) (hb : b.Covers i) : False :=
    absurd (Nat.lt_of_lt_of_le ha.2 (Nat.le_trans hle hb.1)) (Nat.lt_irrefl i)
  induction h with
  | nil => contradiction
  | cons hfirst _ ih =>
      obtain rfl | hlater := List.mem_cons.1 hr
      · obtain rfl | hlater' := List.mem_cons.1 hr'
        · rfl
        · exact (hnot (hfirst _ hlater') hi hi').elim
      · obtain rfl | hlater' := List.mem_cons.1 hr'
        · exact (hnot (hfirst _ hlater) hi' hi).elim
        · exact ih hlater hlater'

/-- The statements of groups partition the lines. -/
theorem Groups.exists_partition {lines : List Text} {statements : List LogicalLine}
    (h : Groups 1 lines statements) : ∃ stretches, Partition lines statements stretches := by
  obtain ⟨stretches, hstands, -, hapart, hcovers⟩ := h.exists_stretches [] rfl
  refine ⟨stretches, hstands, hapart, fun i line hline hfull => ?_, h.isOpen_of_mem_dropLast⟩
  obtain ⟨r, hr, hi⟩ := hcovers i line (Nat.zero_le i) hline hfull
  exact ⟨r, ⟨hr, hi⟩, fun r' hr' => Stretch.eq_of_covers hapart hr'.1 hr'.2 hr hi⟩

/-- **Statements partition the lines of a file.**  Taking in lines one after
another never fails.  The statements that it gives stand on stretches of
consecutive lines, which share no line and leave out only blank ones; their
numbers ascend, and they have the characters of the lines, whitespace apart;
and at the end it is announced that a statement goes on exactly if the last
one is unfinished. -/
theorem lines_partitioned (lines : List Text) :
    ∃ (statements : List LogicalLine) (goesOn : Bool) (stretches : List Stretch),
      takeAll [] false 1 lines = .ok (statements, goesOn) ∧
      assemble lines = .ok statements ∧
      Partition lines statements stretches ∧
      statements.Pairwise (fun s s' => s.number < s'.number) ∧
      Text.eraseSpace (statements.map text).flatten = Text.eraseSpace lines.flatten ∧
      (goesOn = true ↔ ∃ last ∈ statements.getLast?, isOpen last.text = true) := by
  have hnone : Announces false [] := by simp [Announces]
  obtain ⟨statements, goesOn, htake, hannounces⟩ := hnone.exists_takeAll 1 lines
  have hassemble : assemble lines = .ok statements := by
    rw [assemble, ← map_fst_takeAll, htake]
    rfl
  have hgroups := assemble_eq_ok_iff.1 hassemble
  obtain ⟨stretches, hpartition⟩ := hgroups.exists_partition
  exact ⟨statements, goesOn, stretches, htake, hassemble, hpartition, hgroups.pairwise_number,
    hgroups.eraseSpace_eq, hannounces⟩

end LogicalLine

end Conditional
