import Conditional.Proofs.Assembly
import Conditional.Proofs.Commands

/-!
# Conditional.Proofs.Continuation

The lines of one statement, in a file and in the shell.  The two join lines
in different ways: blanks are put in different places, and a blank line adds
a blank to a statement in a file and nothing to one in the shell.  What they
have in common are the tokens of the lines (`SpellLines`) and the excess of
parentheses behind each line (`LogicalLine.Closes`), and nothing else matters
for where the statement ends and for the term that it denotes.  So the shell
answers a statement that a file joins from some lines after the last of these
lines, and not before (`Shell.exists_takes`).
-/

namespace Conditional

open LogicalLine

/-! ## The tokens of lines -/

/-- The lines spell the tokens one line after another. -/
inductive SpellLines : List Text → List Token → Prop where
  | nil : SpellLines [] []
  | cons {line : Text} {lines : List Text} {us vs : List Token} :
      Spells (Text.trim line) us → SpellLines lines vs → SpellLines (line :: lines) (us ++ vs)

namespace SpellLines

variable {t first : Text} {lines more : List Text} {ts us vs : List Token}

theorem spells_continued {line : Text} (ht : Spells t us) (hline : Spells (Text.trim line) vs) :
    Spells (continued t line) (us ++ vs) := ht.append (.blank rfl hline)

/-- Tokens stay in their order when lines are joined to a text. -/
theorem foldl_continued (ht : Spells t us) (h : SpellLines lines vs) :
    Spells (lines.foldl continued t) (us ++ vs) := by
  induction h generalizing t us with
  | nil => rwa [List.append_nil]
  | cons hline _ ih =>
      rw [List.foldl_cons, ← List.append_assoc]
      exact ih (spells_continued ht hline)

/-- What is joined from lines can be spelled only if the lines can. -/
theorem of_foldl_continued (h : Spells (lines.foldl continued t) ts) :
    ∃ us vs, ts = us ++ vs ∧ Spells t us ∧ SpellLines lines vs := by
  induction lines generalizing t with
  | nil => exact ⟨ts, [], (List.append_nil ts).symm, h, .nil⟩
  | cons line lines ih =>
      obtain ⟨us, vs, rfl, hcontinued, hlines⟩ := ih h
      obtain ⟨us₁, us₂, rfl, ht, hline⟩ := hcontinued.of_append_cons rfl
      exact ⟨us₁, us₂ ++ vs, List.append_assoc .., ht, .cons hline hlines⟩

/-- So can a statement that a file joins from them. -/
theorem of_joined (h : Spells (LogicalLine.joined first more) ts) :
    SpellLines (first :: more) ts := by
  obtain ⟨us, vs, rfl, hfirst, hmore⟩ := of_foldl_continued h
  have htrim := hfirst.trim
  rw [Text.trim_trimEnd] at htrim
  exact .cons htrim hmore

end SpellLines

/-! ## The lines of a statement in the shell -/

namespace Shell

open Step Session

theorem onLine_of_blank {line : Text} (h : line.Blank) (s : Shell) :
    (onLine line).run s = ⟨s, [], .ok .ignored⟩ := by
  rw [onLine, Command.ofLine_of_blank h]
  rfl

/-- The shell takes the lines as one statement: it prints nothing and asks for
more until the last line, and after that line it prints the document. -/
inductive Takes : Shell → List Text → Doc → Shell → Prop where
  | last {s s' : Shell} {line : Text} {d : Doc} {reply : Reply} :
      (onLine line).run s = ⟨s', d, .ok reply⟩ → reply ≠ .stop → s'.prompt = "> " →
      Takes s [line] d s'
  | more {s s' s'' : Shell} {line : Text} {lines : List Text} {d : Doc} {reply : Reply} :
      (onLine line).run s = ⟨s', [], .ok reply⟩ → reply ≠ .stop → s'.prompt = ". " →
      Takes s' lines d s'' → Takes s (line :: lines) d s''

section

variable {view : View} {pending line : Text} {number : Nat} {us vs : List Token}

theorem excess_withLine (pending line : Text) :
    (withLine pending line).excess = pending.excess + line.excess := by
  rw [withLine, Text.excess_trimEnd]
  split_ifs with hnil
  · rw [List.isEmpty_iff.1 hnil, Text.excess_nil, Int.zero_add]
  · rw [Text.excess_append, Text.excess_space_cons]

theorem spells_withLine (hpending : Spells pending us) (h : Spells line vs) :
    Spells (withLine pending line) (us ++ vs) := by
  rw [withLine]
  split_ifs with hnil
  · rw [List.isEmpty_iff.1 hnil] at hpending
    rw [hpending.unique .nil]
    exact h.trimEnd
  · exact (hpending.append (.blank rfl h)).trimEnd

/-- A shell that waits for more asks for it with a period. -/
theorem prompt_idle_of_excess (h : 0 < pending.excess) (view : View) (number : Nat) :
    (idle view pending number).prompt = ". " := promptFor_of_isOpen (isOpen_iff.2 h)

end

/-- The shell takes lines that close what they open as one statement, and
answers it like any source that has the same tokens. -/
theorem exists_takes (view : View) (pending : Text) {source : Text} {lines : List Text}
    {us vs : List Token} {d : Doc} (h : Closes pending.excess lines)
    (hstart : 0 < pending.excess ∨ ∀ line ∈ lines.head?, ¬ line.Blank)
    (hpending : Spells pending us) (hlines : SpellLines lines vs)
    (hsource : Spells source (us ++ vs)) (hd : Answers view source d) (number : Nat) :
    ∃ number', Takes (idle view pending number) lines d (idle view [] number') := by
  generalize hexcess : pending.excess = excess at h hstart
  induction h generalizing pending us vs number with
  | @last excess line hclosed =>
      obtain _ | ⟨hline, hnil⟩ := hlines
      cases hnil
      have hblank : ¬ line.Blank := by
        obtain hpos | hfirst := hstart
        · intro hblank
          rw [Text.excess_of_blank hblank] at hclosed
          omega
        · exact hfirst line rfl
      have htext := spells_withLine hpending hline
      rw [List.append_nil] at hsource
      have hrun := run_statement number (.answers (hd.of_spells hsource htext))
      rw [← onLine_of_spells hline hblank] at hrun
      exact ⟨number + 1, .last hrun (by simp) rfl⟩
  | @more excess line lines hopen _ ih =>
      obtain _ | @⟨_, _, us', vs', hline, hlines⟩ := hlines
      by_cases hblank : line.Blank
      · -- nothing is added by a blank line, so more was asked for before it
        rw [Text.excess_of_blank hblank, Int.add_zero] at hopen ih
        have hnone : Spells [] us' := by rwa [Text.trim_eq_nil_iff.2 hblank] at hline
        obtain rfl := hnone.unique .nil
        obtain ⟨number', htakes⟩ := ih _ hpending hlines hsource number hexcess (.inl hopen)
        rw [← hexcess] at hopen
        exact ⟨number', .more (onLine_of_blank hblank _) (by simp)
          (prompt_idle_of_excess hopen ..) htakes⟩
      · have htext := spells_withLine hpending hline
        have hexcess' := excess_withLine pending (Text.trim line)
        rw [Text.excess_trim, hexcess] at hexcess'
        rw [← List.append_assoc] at hsource
        obtain ⟨number', htakes⟩ := ih _ htext hlines hsource (number + 1) hexcess' (.inl hopen)
        rw [← hexcess'] at hopen
        have hresponds : Responds view (withLine pending (Text.trim line)) (number + 1 : Nat)
            (withLine pending (Text.trim line)) [] := .goesOn (isOpen_iff.2 hopen)
        have hrun := run_statement number hresponds
        rw [← onLine_of_spells hline hblank] at hrun
        exact ⟨number', .more hrun (by simp) (prompt_idle_of_excess hopen ..) htakes⟩

/-! ## Conversations -/

/-- Lines that do not end the shell, with all that it prints for them. -/
inductive Converses : Shell → List Text → Doc → Shell → Prop where
  | nil {s : Shell} : Converses s [] [] s
  | cons {s s' s'' : Shell} {line : Text} {lines : List Text} {d d' : Doc} {reply : Reply} :
      (onLine line).run s = ⟨s', d, .ok reply⟩ → reply ≠ .stop → Converses s' lines d' s'' →
      Converses s (line :: lines) (d ++ d') s''

theorem Converses.append {s s' s'' : Shell} {lines more : List Text} {d d' : Doc}
    (h : Converses s lines d s') (h' : Converses s' more d' s'') :
    Converses s (lines ++ more) (d ++ d') s'' := by
  induction h with
  | nil => exact h'
  | cons hline hreply _ ih =>
      rw [List.append_assoc]
      exact .cons hline hreply (ih h')

theorem Takes.converses {s s' : Shell} {lines : List Text} {d : Doc} (h : Takes s lines d s') :
    Converses s lines d s' := by
  induction h with
  | @last _ _ _ d _ hline hreply _ =>
      rw [← List.append_nil d]
      exact .cons hline hreply .nil
  | more hline hreply _ _ ih => exact .cons hline hreply ih

/-- The prompts of the shell for some lines, and what it prints after each of
them. -/
def exchanges (s : Shell) : List Text → List (Text × Doc)
  | [] => []
  | line :: lines =>
    let outcome := (onLine line).run s
    (s.prompt, outcome.output) :: exchanges outcome.state lines

/-- What the exchanges look like on a terminal. -/
def transcript (exchanges : List (Text × Doc)) : Doc :=
  exchanges.flatMap fun exchange => Doc.plain exchange.1 ++ exchange.2

theorem Converses.exchanges_eq {s s' : Shell} {lines : List Text} {d : Doc}
    (h : Converses s lines d s') : (s.exchanges lines).flatMap Prod.snd = d := by
  induction h with
  | nil => rfl
  | cons hline _ _ ih => rw [exchanges, hline, List.flatMap_cons, ih]

theorem run_converse_cons {s s' : Shell} {line : Text} {d : Doc} {reply : Reply}
    (hline : (onLine line).run s = ⟨s', d, .ok reply⟩) (hreply : reply ≠ .stop)
    (lines : List Text) :
    (converse (line :: lines)).run s =
      ⟨((converse lines).run s').state,
        Doc.plain s.prompt ++ (d ++ ((converse lines).run s').output),
        ((converse lines).run s').answer⟩ := by
  rw [converse, run_bind_silent (run_state s), run_bind_ok (run_print _ s), run_bind_ok hline]
  cases reply with
  | stop => contradiction
  | proceed => rfl
  | ignored => rfl

/-- A conversation goes to the end of the lines if none of them ends it. -/
theorem Converses.run_converse {s s' : Shell} {lines : List Text} {d : Doc}
    (h : Converses s lines d s') :
    (converse lines).run s =
      ⟨s', transcript (s.exchanges lines) ++ (Doc.plain s'.prompt ++ Doc.plain ['\n']),
        .ok ()⟩ := by
  induction h with
  | nil => rfl
  | @cons s s' s'' line lines d d' reply hline hreply _ ih =>
      rw [run_converse_cons hline hreply, ih, exchanges, hline]
      simp [transcript]

end Shell

end Conditional
