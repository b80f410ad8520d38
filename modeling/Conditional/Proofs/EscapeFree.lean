import Conditional.Shell
import Conditional.Proofs.Canonical

/-!
# Conditional.Proofs.EscapeFree

Data without the escape character.  The character is in a text that the library
makes only if it was in one of the texts that the library was given: every word
and every mark that is put between these is free of it.

What it means for data to be free of the character follows the form of the data
(`Textual.EscapeFree`), down to the texts.  There is one lemma for every function
that makes new data, and what a function says when it fails is data as well.
-/

namespace Conditional

/-- Data that texts are part of. -/
class Textual (α : Type) where
  /-- The escape character is in none of the texts. -/
  EscapeFree : α → Prop

open Textual

/-! ## Data in general -/

instance : Textual Char := ⟨fun c => c ≠ Face.escape⟩
instance : Textual Unit := ⟨fun _ => True⟩
instance : Textual Bool := ⟨fun _ => True⟩
instance : Textual Int := ⟨fun _ => True⟩

section

variable {α β ε σ : Type} [Textual α] [Textual β] [Textual ε] [Textual σ]

instance : Textual (List α) := ⟨fun l => ∀ a ∈ l, EscapeFree a⟩

instance : Textual (Option α) := ⟨fun o => ∀ a ∈ o, EscapeFree a⟩

instance : Textual (α × β) := ⟨fun p => EscapeFree p.1 ∧ EscapeFree p.2⟩

instance : Textual (Except ε α) where
  EscapeFree
    | .ok a => EscapeFree a
    | .error e => EscapeFree e

instance : Textual (EStateM.Result ε σ α) where
  EscapeFree
    | .ok a s => EscapeFree a ∧ EscapeFree s
    | .error e s => EscapeFree e ∧ EscapeFree s

instance (c : Char) : Decidable (EscapeFree c) := inferInstanceAs (Decidable (c ≠ Face.escape))

-- not the instance for all characters, which would try every one of them
instance (t : Text) : Decidable (EscapeFree t) :=
  List.decidableBAll (fun c => c ≠ Face.escape) t

@[simp] theorem escapeFree_nil : EscapeFree ([] : List α) := List.forall_mem_nil _

@[simp] theorem escapeFree_cons {a : α} {l : List α} :
    EscapeFree (a :: l) ↔ EscapeFree a ∧ EscapeFree l := List.forall_mem_cons

theorem escapeFree_singleton {a : α} : EscapeFree [a] ↔ EscapeFree a := by
  rw [escapeFree_cons]
  exact and_iff_left escapeFree_nil

@[simp] theorem escapeFree_append {l l' : List α} :
    EscapeFree (l ++ l') ↔ EscapeFree l ∧ EscapeFree l' := List.forall_mem_append

@[simp] theorem escapeFree_none : EscapeFree (none : Option α) := by
  intro a ha
  contradiction

@[simp] theorem escapeFree_some {a : α} : EscapeFree (some a) ↔ EscapeFree a := by
  constructor
  · exact fun h => h a rfl
  · rintro h a' ha'
    obtain rfl := Option.some.inj ha'
    exact h

theorem Textual.EscapeFree.of_subset {l l' : List α} (h : EscapeFree l) (hsubset : l' ⊆ l) :
    EscapeFree l' := fun a ha => h a (hsubset ha)

theorem Textual.EscapeFree.flatMap {l : List α} (h : EscapeFree l) {f : α → List β}
    (hf : ∀ a, EscapeFree a → EscapeFree (f a)) : EscapeFree (l.flatMap f) := by
  intro b hb
  obtain ⟨a, ha, hb⟩ := List.mem_flatMap.1 hb
  exact hf a (h a ha) b hb

/-- A computation in two stages. -/
theorem Textual.EscapeFree.bind {x : Except ε α} (h : EscapeFree x) {f : α → Except ε β}
    (hf : ∀ a, EscapeFree a → EscapeFree (f a)) : EscapeFree (x >>= f) := by
  cases x with
  | ok a => exact hf a h
  | error e => exact h

/-- A computation in two stages that keep a record. -/
theorem Textual.EscapeFree.bindState {x : EStateM ε σ α} {s : σ} (h : EscapeFree (x s))
    {f : α → EStateM ε σ β} (hf : ∀ a s', EscapeFree a → EscapeFree s' → EscapeFree (f a s')) :
    EscapeFree ((x >>= f) s) := by
  change EscapeFree (EStateM.bind x f s)
  rw [EStateM.bind]
  cases hx : x s with
  | ok a s' =>
      rw [hx] at h
      exact hf a s' h.1 h.2
  | error e s' =>
      rw [hx] at h
      exact h

/-- One computation for each of some data. -/
theorem Textual.EscapeFree.mapM {l : List α} (h : EscapeFree l) {f : α → Except ε β}
    (hf : ∀ a, EscapeFree a → EscapeFree (f a)) : EscapeFree (l.mapM f) := by
  induction l with
  | nil => exact escapeFree_nil
  | cons a l ih =>
      obtain ⟨ha, hl⟩ := escapeFree_cons.1 h
      rw [List.mapM_cons]
      refine (hf a ha).bind fun b hb => (ih hl).bind fun bs hbs => ?_
      exact escapeFree_cons.2 ⟨hb, hbs⟩

end

/-! ## Texts -/

namespace Text

variable {t : Text}

theorem escapeFree_fill {c : Char} (h : EscapeFree c) (count : Int) :
    EscapeFree (fill c count) := by
  intro c' hc'
  rwa [List.eq_of_mem_replicate hc']

theorem escapeFree_upTo (h : EscapeFree t) (stop : Int) : EscapeFree (t.upTo stop) :=
  h.of_subset (List.take_subset _ t)

theorem escapeFree_onward (h : EscapeFree t) (start : Int) : EscapeFree (t.onward start) :=
  h.of_subset (List.drop_subset _ t)

theorem escapeFree_between (h : EscapeFree t) (start stop : Int) :
    EscapeFree (t.between start stop) :=
  (h.of_subset (List.take_subset _ t)).of_subset (List.drop_subset _ _)

theorem escapeFree_trimStart (h : EscapeFree t) : EscapeFree t.trimStart :=
  h.of_subset (List.dropWhile_suffix isSpace).subset

theorem escapeFree_trimEnd (h : EscapeFree t) : EscapeFree t.trimEnd := by
  have hreverse : EscapeFree t.reverse := h.of_subset (List.reverse_subset.2 (List.Subset.refl t))
  exact (hreverse.of_subset (List.dropWhile_suffix isSpace).subset).of_subset
    (List.reverse_subset.2 (List.Subset.refl _))

theorem escapeFree_trim (h : EscapeFree t) : EscapeFree t.trim :=
  escapeFree_trimEnd (escapeFree_trimStart h)

/-- Numerals consist of digits. -/
theorem escapeFree_ofNat (n : Nat) : EscapeFree (ofNat n) := by
  intro c hc
  have hdigit : c.isDigit = true := Nat.isDigit_of_mem_toDigits (by decide) (by decide) hc
  rintro rfl
  contradiction

theorem escapeFree_ofInt (n : Int) : EscapeFree (ofInt n) := by
  cases n with
  | ofNat n => exact escapeFree_ofNat n
  | negSucc n => exact escapeFree_cons.2 ⟨by decide, escapeFree_ofNat (n + 1)⟩

theorem escapeFree_join {separator : Text} (h : EscapeFree separator) {parts : List Text}
    (hparts : EscapeFree parts) : EscapeFree (join separator parts) := by
  induction parts with
  | nil => exact escapeFree_nil
  | cons part parts ih =>
      obtain ⟨hpart, hparts⟩ := escapeFree_cons.1 hparts
      cases parts with
      | nil => simpa [join] using hpart
      | cons part' parts =>
          rw [join, List.intercalate_cons_cons, ← join]
          exact escapeFree_append.2 ⟨escapeFree_append.2 ⟨hpart, h⟩, ih hparts⟩

theorem escapeFree_lines (h : EscapeFree t) : EscapeFree (lines t) := by
  induction t with
  | nil => exact escapeFree_nil
  | cons c t ih =>
      obtain ⟨hc, ht⟩ := escapeFree_cons.1 h
      rw [lines]
      split
      · exact escapeFree_cons.2 ⟨escapeFree_nil, ih ht⟩
      · split
        · simpa using hc
        · next line more hlines =>
            obtain ⟨hline, hmore⟩ := escapeFree_cons.1 (hlines ▸ ih ht)
            exact escapeFree_cons.2 ⟨escapeFree_cons.2 ⟨hc, hline⟩, hmore⟩

end Text

/-! ## Terms -/

instance : Textual Fault := ⟨fun f => EscapeFree f.kind ∧ EscapeFree f.detail⟩

instance : Textual Foreign where
  EscapeFree
    | .extension form text => EscapeFree form ∧ EscapeFree text
    | .datum form => EscapeFree form

namespace Fault

variable {form : Text}

theorem escapeFree_notEvaluable (h : EscapeFree form) : EscapeFree (notEvaluable form) :=
  ⟨by simp +decide [kind], by simp +decide [detail, h]⟩

theorem escapeFree_notRenderable (h : EscapeFree form) : EscapeFree (notRenderable form) :=
  ⟨by simp +decide [kind], by simp +decide [detail, h]⟩

theorem escapeFree_strayBrace {brace : Char} (h : EscapeFree brace) :
    EscapeFree (strayBrace brace) :=
  ⟨by simp +decide [kind], by simp +decide [detail, h]⟩

end Fault

namespace Foreign

variable {node : Foreign}

theorem escapeFree_form (h : EscapeFree node) : EscapeFree node.form := by
  cases node with
  | extension form text => exact h.1
  | datum form => exact h

theorem escapeFree_text (h : EscapeFree node) : EscapeFree node.text := by
  cases node with
  | extension form text => exact h.2
  | datum form => exact Fault.escapeFree_notRenderable h

end Foreign

/-- The texts of a term are those of its foreign nodes. -/
def Term.NodesEscapeFree : Term → Prop
  | lit _ => True
  | ite c a b => c.NodesEscapeFree ∧ a.NodesEscapeFree ∧ b.NodesEscapeFree
  | foreign node => EscapeFree node

instance : Textual Term := ⟨Term.NodesEscapeFree⟩

theorem escapeFree_spellBool (value : Bool) : EscapeFree (spellBool value) := by
  cases value <;> decide

namespace Term

variable {t c a b : Term}

theorem escapeFree_ite : EscapeFree (ite c a b) ↔ EscapeFree c ∧ EscapeFree a ∧ EscapeFree b :=
  Iff.rfl

/-- A native term has no foreign nodes. -/
theorem Native.escapeFree (h : t.Native) : EscapeFree t := by
  induction t with
  | lit value => trivial
  | ite c a b hc ha hb => exact ⟨hc h.1, ha h.2.1, hb h.2.2⟩
  | foreign node => contradiction

theorem escapeFree_form (h : EscapeFree t) : EscapeFree t.form := by
  match t with
  | lit true => decide
  | lit false => decide
  | ite _ _ _ =>
      have hform : EscapeFree ("IfExpr" : Text) := by decide
      exact hform
  | foreign node => exact Foreign.escapeFree_form h

theorem escapeFree_text (h : EscapeFree t) : EscapeFree t.text := by
  induction t with
  | lit value => exact escapeFree_spellBool value
  | ite c a b hc ha hb =>
      obtain ⟨fc, fa, fb⟩ := escapeFree_ite.1 h
      refine (hc fc).bind fun c' hc' => (ha fa).bind fun a' ha' => (hb fb).bind fun b' hb' => ?_
      change EscapeFree (conditional c' a' b')
      simp +decide [conditional, hc', ha', hb']
  | foreign node => exact Foreign.escapeFree_text h

theorem escapeFree_indentation (level : Int) : EscapeFree (indentation level) :=
  Text.escapeFree_fill (by decide) _

theorem escapeFree_header (h : EscapeFree t) (level : Int) : EscapeFree (header level t) := by
  refine (escapeFree_text h).bind fun text htext => ?_
  change EscapeFree (indentation level ++ t.form ++ "(expr='" ++ text ++ "'")
  simp +decide [escapeFree_indentation, escapeFree_form h, htext]

theorem escapeFree_display (h : EscapeFree t) (level : Int) : EscapeFree (t.display level) := by
  induction t generalizing level with
  | ite c a b hc ha hb =>
      obtain ⟨fc, fa, fb⟩ := escapeFree_ite.1 h
      rw [display]
      refine (escapeFree_header h level).bind fun head hhead => ?_
      refine (hc fc (level + 1)).bind fun c' hc' => (ha fa (level + 1)).bind fun a' ha' => ?_
      refine (hb fb (level + 1)).bind fun b' hb' => ?_
      change EscapeFree (head ++ ", nodes=[\n" ++ c' ++ ",\n" ++ a' ++ ",\n" ++ b' ++ "\n" ++
        indentation level ++ "])")
      simp +decide [hhead, hc', ha', hb', escapeFree_indentation]
  | lit value =>
      refine (escapeFree_header h level).bind fun head hhead => ?_
      exact escapeFree_append.2 ⟨hhead, by decide⟩
  | foreign node =>
      refine (escapeFree_header h level).bind fun head hhead => ?_
      exact escapeFree_append.2 ⟨hhead, by decide⟩

/-! ### Evaluation -/

theorem escapeFree_evaluate (h : EscapeFree t) : EscapeFree t.evaluate := by
  induction t with
  | lit value => trivial
  | ite c a b hc ha hb =>
      obtain ⟨fc, fa, fb⟩ := escapeFree_ite.1 h
      refine (hc fc).bind fun value _ => ?_
      cases value with
      | true => exact ha fa
      | false => exact hb fb
  | foreign node => exact Fault.escapeFree_notEvaluable (Foreign.escapeFree_form h)

end Term

instance : Textual Judgment := ⟨fun j => EscapeFree j.term⟩

namespace Judgment

variable {j : Judgment}

theorem escapeFree_text (h : EscapeFree j) : EscapeFree j.text := by
  refine (Term.escapeFree_text h).bind fun text htext => ?_
  change EscapeFree (text ++ " ⇓ " ++ spellBool j.value)
  simp +decide [htext, escapeFree_spellBool]

theorem escapeFree_line (h : EscapeFree j) : EscapeFree j.line :=
  (escapeFree_text h).bind fun _ htext =>
    escapeFree_append.2 ⟨Text.escapeFree_fill (by decide) _, htext⟩

end Judgment

theorem escapeFree_derivation {judgments : List Judgment} (h : EscapeFree judgments) :
    EscapeFree (derivation judgments) :=
  (h.mapM fun _ hj => Judgment.escapeFree_line hj).bind fun _ hlines =>
    Text.escapeFree_join (by decide) hlines

theorem escapeFree_conclude {t : Term} (h : EscapeFree t) (value : Bool) (depth : Int)
    {judgments : List Judgment} (hjudgments : EscapeFree judgments) :
    EscapeFree (conclude t value depth judgments) :=
  ⟨trivial, escapeFree_append.2 ⟨hjudgments, escapeFree_singleton.2 h⟩⟩

/-- The judgments on record are about subterms. -/
theorem Term.escapeFree_recordAt {t : Term} (h : EscapeFree t) (depth : Int)
    {judgments : List Judgment} (hjudgments : EscapeFree judgments) :
    EscapeFree (t.recordAt depth judgments) := by
  -- the branch adds to what the condition has put on record, so the record is generalised
  induction t generalizing depth judgments with
  | lit value => exact escapeFree_conclude h value depth hjudgments
  | ite c a b hc ha hb =>
      obtain ⟨fc, fa, fb⟩ := escapeFree_ite.1 h
      refine (hc fc (depth + 1) hjudgments).bindState fun value first _ hfirst => ?_
      cases value with
      | true =>
          exact (ha fa (depth + 1) hfirst).bindState fun w second _ hsecond =>
            escapeFree_conclude h w depth hsecond
      | false =>
          exact (hb fb (depth + 1) hfirst).bindState fun w second _ hsecond =>
            escapeFree_conclude h w depth hsecond
  | foreign node =>
      exact ⟨Fault.escapeFree_notEvaluable (Foreign.escapeFree_form h), hjudgments⟩

/-! ## Results -/

instance : Textual Result := ⟨fun r => EscapeFree r.term ∧ EscapeFree r.judgments⟩

namespace Session

theorem escapeFree_result {t : Term} (h : EscapeFree t) (trace : Bool) (number : Int) :
    EscapeFree (result trace number t) := by
  cases trace with
  | true =>
      have hrecord := Term.escapeFree_recordAt h 0 escapeFree_nil
      rw [result, if_pos rfl, Term.record]
      cases hanswer : t.recordAt 0 [] with
      | ok value judgments =>
          rw [hanswer] at hrecord
          exact ⟨h, hrecord.2⟩
      | error f judgments =>
          rw [hanswer] at hrecord
          exact hrecord.1
  | false =>
      rw [result, if_neg Bool.false_ne_true]
      exact (Term.escapeFree_evaluate h).bind fun _ _ => ⟨h, escapeFree_nil⟩

theorem escapeFree_render {r : Result} (h : EscapeFree r) (view : View) :
    EscapeFree (render view r) := by
  have hshown {part : Except Fault Text} (hpart : EscapeFree part) :
      EscapeFree (do return [← part] : Except Fault (List Text)) :=
    hpart.bind fun _ ht => escapeFree_singleton.2 ht
  have hjoined {parts : List Text} (hparts : EscapeFree parts) :
      EscapeFree (Text.join ['\n'] (parts ++ [spellBool r.value])) :=
    Text.escapeFree_join (by decide)
      (escapeFree_append.2 ⟨hparts, escapeFree_singleton.2 (escapeFree_spellBool _)⟩)
  have hrest {tree : List Text} (htree : EscapeFree tree) :
      EscapeFree (do
        let trace ← if view.trace then (do return [← derivation r.judgments]) else .ok []
        return Text.join ['\n'] (tree ++ trace ++ [spellBool r.value]) : Except Fault Text) := by
    split
    · exact (hshown (escapeFree_derivation h.2)).bind fun _ htrace =>
        hjoined (escapeFree_append.2 ⟨htree, htrace⟩)
    · exact hjoined (escapeFree_append.2 ⟨htree, escapeFree_nil⟩)
  rw [render]
  split
  · exact (hshown (Term.escapeFree_display h.1 0)).bind fun _ htree => hrest htree
  · exact hrest escapeFree_nil

end Session

/-! ## Queues and logical lines -/

namespace Queue

variable {q : Queue}

theorem escapeFree_insert (h : EscapeFree q) {t : Term} (ht : EscapeFree t) (number : Int) :
    EscapeFree (q.insert number t) := by
  have hentry : EscapeFree (number, t) := ⟨trivial, ht⟩
  induction q with
  | nil => exact escapeFree_singleton.2 hentry
  | cons entry q ih =>
      obtain ⟨he, hq⟩ := escapeFree_cons.1 h
      rw [insert]
      split
      · exact escapeFree_cons.2 ⟨hentry, h⟩
      · split
        · exact escapeFree_cons.2 ⟨hentry, hq⟩
        · exact escapeFree_cons.2 ⟨he, ih hq⟩

theorem escapeFree_erase (h : EscapeFree q) (number : Int) : EscapeFree (q.erase number) :=
  h.of_subset List.filter_sublist.subset

end Queue

instance : Textual LogicalLine := ⟨fun statement => EscapeFree statement.text⟩

namespace LogicalLine

theorem escapeFree_take {statements : List LogicalLine} (h : EscapeFree statements) {line : Text}
    (hline : EscapeFree line) (goesOn : Bool) (number : Int) :
    EscapeFree (take statements goesOn line number) := by
  have htrimmed := Text.escapeFree_trimEnd hline
  rw [take]
  split
  · split
    · exact ⟨by decide, by decide⟩
    · next last hlast =>
        have hmem := List.mem_of_getLast? hlast
        have htext : EscapeFree (continued last.text line.trimEnd) :=
          escapeFree_append.2 ⟨h last hmem,
            escapeFree_cons.2 ⟨by decide, Text.escapeFree_trim htrimmed⟩⟩
        refine ⟨escapeFree_append.2 ⟨h.of_subset (List.dropLast_subset _), ?_⟩, htext⟩
        exact escapeFree_singleton.2 htext
  · split
    · exact ⟨h, htrimmed⟩
    · exact ⟨escapeFree_append.2 ⟨h, escapeFree_singleton.2 htrimmed⟩, htrimmed⟩

theorem escapeFree_assembleFrom {statements : List LogicalLine} (h : EscapeFree statements)
    {lines : List Text} (hlines : EscapeFree lines) (goesOn : Bool) (number : Int) :
    EscapeFree (assembleFrom statements goesOn number lines) := by
  induction lines generalizing statements goesOn number with
  | nil => exact h
  | cons line lines ih =>
      obtain ⟨hline, hlines⟩ := escapeFree_cons.1 hlines
      exact (escapeFree_take h hline goesOn number).bind fun _ htaken => ih htaken.1 hlines _ _

end LogicalLine

/-! ## Problems -/

instance : Textual Span := ⟨fun s => EscapeFree s.text⟩
instance : Textual Notice := ⟨fun n => EscapeFree n.template ∧ EscapeFree n.snippets⟩
instance : Textual Problem := ⟨fun p => EscapeFree p.message ∧ EscapeFree p.subject⟩

namespace Doc

@[simp] theorem escapeFree_plain {t : Text} : EscapeFree (plain t) ↔ EscapeFree t := by
  rw [plain, escapeFree_singleton]
  exact Iff.rfl

@[simp] theorem escapeFree_styled {face : Face} {t : Text} :
    EscapeFree (styled face t) ↔ EscapeFree t := by
  rw [styled, escapeFree_singleton]
  exact Iff.rfl

end Doc

namespace Template

instance : Textual Piece where
  EscapeFree
    | .char c | .stray c => EscapeFree c
    | .hole => True

theorem escapeFree_pieces {template : Text} (h : EscapeFree template) :
    EscapeFree (pieces template) := by
  fun_induction pieces template with
  | case1 rest ih | case2 rest ih =>
      obtain ⟨hc, hrest⟩ := escapeFree_cons.1 h
      exact escapeFree_cons.2 ⟨hc, ih (escapeFree_cons.1 hrest).2⟩
  | case3 rest ih =>
      obtain ⟨-, hrest⟩ := escapeFree_cons.1 h
      exact escapeFree_cons.2 ⟨trivial, ih (escapeFree_cons.1 hrest).2⟩
  | case4 c rest _ _ _ ih =>
      obtain ⟨hc, hrest⟩ := escapeFree_cons.1 h
      refine escapeFree_cons.2 ⟨?_, ih hrest⟩
      split <;> exact hc
  | case5 => exact escapeFree_nil

theorem escapeFree_consPlain {c : Char} (h : EscapeFree c) {d : Doc} (hd : EscapeFree d) :
    EscapeFree (consPlain c d) := by
  unfold consPlain
  split
  · obtain ⟨ht, hd⟩ := escapeFree_cons.1 hd
    exact escapeFree_cons.2 ⟨escapeFree_cons.2 ⟨h, ht⟩, hd⟩
  · exact escapeFree_cons.2 ⟨escapeFree_singleton.2 h, hd⟩

theorem escapeFree_fillPieces {ps : List Piece} (h : EscapeFree ps) {snippets : List Text}
    (hsnippets : EscapeFree snippets) (used : Nat) :
    EscapeFree (fillPieces used ps snippets) := by
  induction ps generalizing snippets used with
  | nil => exact escapeFree_nil
  | cons piece ps ih =>
      obtain ⟨hpiece, hps⟩ := escapeFree_cons.1 h
      cases piece with
      | char c =>
          exact (ih hps hsnippets used).bind fun _ hd => escapeFree_consPlain hpiece hd
      | stray brace => exact Fault.escapeFree_strayBrace hpiece
      | hole =>
          cases snippets with
          | nil =>
              exact ⟨by simp +decide [Fault.kind],
                by simp +decide [Fault.detail, Text.escapeFree_ofNat]⟩
          | cons snippet snippets =>
              obtain ⟨hsnippet, hsnippets⟩ := escapeFree_cons.1 hsnippets
              exact (ih hps hsnippets (used + 1)).bind fun _ hd =>
                escapeFree_cons.2 ⟨hsnippet, hd⟩

theorem escapeFree_fill {template : Text} (h : EscapeFree template) {snippets : List Text}
    (hsnippets : EscapeFree snippets) : EscapeFree (fill template snippets) :=
  escapeFree_fillPieces (escapeFree_pieces h) hsnippets 0

end Template

theorem Notice.escapeFree_problem {n : Notice} (h : EscapeFree n) (cause : Cause) :
    EscapeFree (n.problem cause) := by
  obtain ⟨htemplate, hsnippets⟩ := h
  refine (Template.escapeFree_fill htemplate hsnippets).bind fun message hmessage => ?_
  split
  · exact ⟨by decide, by decide⟩
  · next subject rest hsplit =>
      rw [hsplit] at hsnippets
      exact ⟨hmessage, (escapeFree_cons.1 hsnippets).1⟩

theorem Notice.escapeFree_about {snippet rest : Text} (h : EscapeFree snippet)
    (hrest : EscapeFree rest) : EscapeFree (Notice.about snippet rest) :=
  ⟨escapeFree_append.2 ⟨by decide, hrest⟩, escapeFree_singleton.2 h⟩

theorem Problem.escapeFree_diagnosis {p : Problem} (h : EscapeFree p) (face : Face) :
    EscapeFree (p.diagnosis face) := by
  obtain ⟨-, hsubject⟩ := h
  have hblanks : EscapeFree (Text.fill ' ' p.start) := Text.escapeFree_fill (by decide) _
  have hmarks : EscapeFree (Text.fill '~' (max p.stop (p.start + 1) - p.start - 1)) :=
    Text.escapeFree_fill (by decide) _
  simp +decide [diagnosis, Text.escapeFree_upTo hsubject, Text.escapeFree_between hsubject,
    Text.escapeFree_onward hsubject, hblanks, hmarks]

/-! ### Mistakes in a source text -/

/-- The character that begins no token is a character of the source. -/
theorem LexError.character_mem {source : Text} {e : LexError} (h : tokenize source = .error e) :
    e.character ∈ source := by
  have hstart : Scanner.start source = ⟨source, 0, source.length⟩ := rfl
  obtain ⟨ls, hls⟩ | ⟨a, b, ls, hab, hls, c, rest, hcons, hc, hread⟩ := lexes_or_stuck 0 source
  · rw [tokenize, hstart, Scanner.tokenize_lexes hls] at h
    contradiction
  · have hstop := Scanner.tokenize_append hls b source.length
    rw [hcons] at hread
    rw [← hab, hcons, Scanner.tokenize_unreadable hc hread, ← hstart] at hstop
    rw [tokenize, hstop] at h
    obtain rfl := Except.error.inj h
    rw [hab, hcons]
    simp

theorem LexError.tokenize_of_parse {source : Text} {e : LexError}
    (h : parse source = .error (.lexical e)) : tokenize source = .error e := by
  rw [parse] at h
  cases htokenize : tokenize source with
  | error e' =>
      rw [htokenize] at h
      exact congrArg Except.error (SourceError.lexical.inj (Except.error.inj h))
  | ok lexemes =>
      rw [htokenize] at h
      cases hparse : parseLexemes lexemes <;> simp [hparse] at h

namespace Token

theorem escapeFree_label (t : Token) : EscapeFree t.label := by
  cases t <;> decide

theorem escapeFree_describe (tokens : List Token) : EscapeFree (describe tokens) := by
  rw [describe]
  split
  · exact escapeFree_label _
  · refine escapeFree_append.2 ⟨by decide, Text.escapeFree_join (by decide) ?_⟩
    intro label hlabel
    obtain ⟨t, -, rfl⟩ := List.mem_map.1 hlabel
    exact escapeFree_label t

end Token

/-- Whatever comes of a source text is made of it. -/
theorem escapeFree_parse {source : Text} (h : EscapeFree source) :
    (∀ t, parse source = .ok t → EscapeFree t) ∧
      ∀ e, parse source = .error e → EscapeFree (e.problem source) := by
  have hsnippets : EscapeFree [source] := escapeFree_singleton.2 h
  refine ⟨fun t ht => (native_of_parse ht).escapeFree, fun e he => ?_⟩
  match e with
  | .lexical e =>
      have hcharacter := LexError.character_mem (LexError.tokenize_of_parse he)
      have htemplate : EscapeFree (Template.quotedHole ++ " contains unrecognized character " ++
          Template.quotedHole : Text) := by decide
      refine Notice.escapeFree_problem ⟨htemplate, escapeFree_cons.2 ⟨h, ?_⟩⟩ _
      simpa using h e.character hcharacter
  | .grammatical (.unexpected expected found) =>
      refine Notice.escapeFree_problem ⟨?_, hsnippets⟩ _
      change EscapeFree (Problem.expectation expected found.token)
      simp +decide [Problem.expectation, Token.escapeFree_describe, Token.escapeFree_label]
  | .grammatical (.tooDeep found) =>
      have htemplate : EscapeFree tooDeepMessage := by decide
      exact Notice.escapeFree_problem ⟨htemplate, hsnippets⟩ _

end Conditional
