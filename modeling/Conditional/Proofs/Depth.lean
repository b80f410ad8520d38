import Conditional.Proofs.Expectation
import Conditional.Proofs.Wording

/-!
# Conditional.Proofs.Depth

What the nesting limit does to the parser, and what it does not.  Tokens that
begin an expression leave some constructs open (`Opens`), and each of them is a
call of the parser that has not come back.  So reading gives up exactly if some
of the tokens in front leave more constructs open than the limit allows
(`tooDeep_iff`), and it does so whatever follows.

Apart from that the limit changes nothing.  The parser calls itself only with
tokens passed over, so there is one parser that calls itself without counting
(`step_eq_self_iff`), and it agrees with the one that counts wherever that does
not give up (`unbounded_eq`).
-/

namespace Conditional

open Token Conditional.Parser

/-! ## Open constructs -/

/-- The tokens begin an expression without completing it, and leave so many
constructs open: groups that are not closed, and conditionals whose last branch is
not complete.  There is one constructor for each place where such tokens can stop,
as in `Fails`. -/
inductive Opens : List Token → Nat → Prop where
  | start : Opens [] 0
  | condition {u : List Token} {k : Nat} : Opens u k → Opens (kwIf :: u) (k + 1)
  | kwThen {u : List Token} {c : Term} : Derives u c → Opens (kwIf :: u) 1
  | thenBranch {u v : List Token} {c : Term} {k : Nat} :
      Derives u c → Opens v k → Opens (kwIf :: u ++ kwThen :: v) (k + 1)
  | kwElse {u v : List Token} {c a : Term} :
      Derives u c → Derives v a → Opens (kwIf :: u ++ kwThen :: v) 1
  | elseBranch {u v w : List Token} {c a : Term} {k : Nat} :
      Derives u c → Derives v a → Opens w k →
      Opens (kwIf :: u ++ kwThen :: v ++ kwElse :: w) (k + 1)
  | inner {w : List Token} {k : Nat} : Opens w k → Opens (lparen :: w) (k + 1)
  | rparen {w : List Token} {t : Term} : Derives w t → Opens (lparen :: w) 1

/-- The tokens begin a program and leave so many constructs open. -/
inductive Leaves : List Token → Nat → Prop where
  | within {ts : List Token} {k : Nat} : Opens ts k → Leaves ts k
  | behind {w : List Token} {t : Term} : Derives w t → Leaves w 0
  | program {w : List Token} {t : Term} : Derives w t → Leaves (w ++ [endOfInput]) 0

/-- The level of an entry of an agenda. -/
def Demand.level : Demand → Nat
  | .token level _ => level
  | .expression level => level

/-- The level of what is due. -/
def Demand.levelOf : List Demand → Nat
  | [] => 0
  | d :: _ => d.level

section

variable {w u v ts : List Token} {t c a : Term} {k : Nat}

theorem serveAll_thenBranch (hu : Derives u c) (level : Nat) (agenda : List Demand)
    (ts : List Token) :
    serveAll (.expression level :: agenda) (kwIf :: u ++ kwThen :: ts) =
      serveAll (.expression (level + 1) :: (Demand.elsePart (level + 1) ++ agenda)) ts := by
  simp [serveAll_append, serve, Demand.conditional, Demand.branches, hu.serveAll_eq]

theorem serveAll_elseBranch (hu : Derives u c) (hv : Derives v a) (level : Nat)
    (agenda : List Demand) (ts : List Token) :
    serveAll (.expression level :: agenda) (kwIf :: u ++ kwThen :: v ++ kwElse :: ts) =
      serveAll (.expression (level + 1) :: agenda) ts := by
  rw [serveAll_append, serveAll_thenBranch hu, hv.serveAll_eq]
  simp [serve, Demand.elsePart]

/-- Behind the tokens, something is due on the level of the constructs that they
leave open. -/
theorem Opens.exists_serveAll (h : Opens ts k) (level : Nat) (agenda : List Demand) :
    ∃ d agenda', serveAll (.expression level :: agenda) ts = some (d :: agenda') ∧
      d.level = level + k := by
  induction h generalizing level agenda with
  | start => exact ⟨_, _, rfl, rfl⟩
  | condition _ ih =>
      obtain ⟨d, agenda', hserve, hlevel⟩ := ih (level + 1) (Demand.branches (level + 1) ++ agenda)
      exact ⟨d, agenda', hserve, by omega⟩
  | kwThen hu => exact ⟨_, _, hu.serveAll_eq (level + 1) _, rfl⟩
  | thenBranch hu _ ih =>
      obtain ⟨d, agenda', hserve, hlevel⟩ := ih (level + 1) (Demand.elsePart (level + 1) ++ agenda)
      exact ⟨d, agenda', (serveAll_thenBranch hu level agenda _).trans hserve, by omega⟩
  | kwElse hu hv =>
      have hserve := (serveAll_thenBranch hu level agenda _).trans (hv.serveAll_eq (level + 1) _)
      exact ⟨_, _, hserve, rfl⟩
  | elseBranch hu hv _ ih =>
      obtain ⟨d, agenda', hserve, hlevel⟩ := ih (level + 1) agenda
      exact ⟨d, agenda', (serveAll_elseBranch hu hv level agenda _).trans hserve, by omega⟩
  | inner _ ih =>
      obtain ⟨d, agenda', hserve, hlevel⟩ := ih (level + 1) (.token (level + 1) .rparen :: agenda)
      exact ⟨d, agenda', hserve, by omega⟩
  | rparen hw => exact ⟨_, _, hw.serveAll_eq (level + 1) _, rfl⟩

/-- What is due in a program is due on the level of the constructs that are open. -/
theorem Leaves.exists_serveAll (h : Leaves ts k) :
    ∃ agenda, serveAll programAgenda ts = some agenda ∧ Demand.levelOf agenda = k := by
  cases h with
  | within h =>
      obtain ⟨d, agenda, hserve, hlevel⟩ := h.exists_serveAll 0 [.token 0 endOfInput]
      exact ⟨d :: agenda, hserve, hlevel.trans (Nat.zero_add k)⟩
  | behind hw => exact ⟨_, hw.serveAll_eq 0 _, rfl⟩
  | program hw => exact ⟨[], by rw [serveAll_append, programAgenda, hw.serveAll_eq]; rfl, rfl⟩

/-- A sequence behind which something stands ends in front of it or goes beyond
it. -/
theorem prefix_append_cons {x : Token} (h : ts <+: u ++ x :: v) :
    ts <+: u ∨ ∃ more, ts = u ++ x :: more ∧ more <+: v := by
  obtain hfront | ⟨rest, rfl⟩ := List.prefix_or_prefix_of_prefix h (List.prefix_append u _)
  · exact .inl hfront
  · rw [List.prefix_append_right_inj, List.prefix_cons_iff] at h
    obtain rfl | ⟨more, rfl, hmore⟩ := h
    · exact .inl (by simp)
    · exact .inr ⟨more, rfl, hmore⟩

/-- The front of an expression is all of it, or leaves constructs open. -/
theorem Derives.opens_of_prefix (h : Derives w t) (hts : ts <+: w) :
    ts = w ∨ ∃ k, Opens ts k := by
  induction h generalizing ts with
  | litTrue | litFalse =>
      obtain rfl | ⟨more, rfl, hmore⟩ := List.prefix_cons_iff.1 hts
      · exact .inr ⟨0, .start⟩
      · exact .inl (by rw [List.prefix_nil.1 hmore])
  | conditional hu hv _ ihu ihv ihw =>
      obtain hts | ⟨more, rfl, hmore⟩ := prefix_append_cons hts
      · obtain hts | ⟨more, rfl, hmore⟩ := prefix_append_cons hts
        · obtain rfl | ⟨more, rfl, hmore⟩ := List.prefix_cons_iff.1 hts
          · exact .inr ⟨0, .start⟩
          · obtain rfl | ⟨k, hk⟩ := ihu hmore
            · exact .inr ⟨1, .kwThen hu⟩
            · exact .inr ⟨k + 1, .condition hk⟩
        · obtain rfl | ⟨k, hk⟩ := ihv hmore
          · exact .inr ⟨1, .kwElse hu hv⟩
          · exact .inr ⟨k + 1, .thenBranch hu hk⟩
      · obtain rfl | ⟨k, hk⟩ := ihw hmore
        · exact .inl rfl
        · exact .inr ⟨k + 1, .elseBranch hu hv hk⟩
  | group hw ih =>
      obtain rfl | hts := List.prefix_concat_iff.1 hts
      · exact .inl rfl
      · obtain rfl | ⟨more, rfl, hmore⟩ := List.prefix_cons_iff.1 hts
        · exact .inr ⟨0, .start⟩
        · obtain rfl | ⟨k, hk⟩ := ih hmore
          · exact .inr ⟨1, .rparen hw⟩
          · exact .inr ⟨k + 1, .inner hk⟩

/-- The beginnings of programs are the token sequences that leave a number of
constructs open. -/
theorem programPrefix_iff_leaves : ProgramPrefix ts ↔ ∃ k, Leaves ts k := by
  constructor
  · rintro ⟨more, w, t, hw, heq⟩
    have hts : ts <+: w ++ [endOfInput] := ⟨more, heq⟩
    obtain rfl | hts := List.prefix_concat_iff.1 hts
    · exact ⟨0, .program hw⟩
    · obtain rfl | ⟨k, hk⟩ := hw.opens_of_prefix hts
      · exact ⟨0, .behind hw⟩
      · exact ⟨k, .within hk⟩
  · rintro ⟨k, hk⟩
    obtain ⟨agenda, hserve, -⟩ := hk.exists_serveAll
    exact programPrefix_iff.2 ⟨agenda, hserve⟩

/-- They leave one number of constructs open. -/
theorem Leaves.unique {m : Nat} (h : Leaves ts k) (h' : Leaves ts m) : k = m := by
  obtain ⟨agenda, hserve, rfl⟩ := h.exists_serveAll
  obtain ⟨agenda', hserve', rfl⟩ := h'.exists_serveAll
  rw [Option.some.inj (hserve.symm.trans hserve')]

/-- No more constructs are open than there are tokens. -/
theorem Opens.le_length (h : Opens ts k) : k ≤ ts.length := by
  induction h <;> simp <;> omega

end

/-! ## Where reading gives up -/

section

variable {c c' : Cursor} {ls : List Lexeme} {ts w : List Token} {t : Term} {n m k : Nat}

/-- An expression that stands behind the cursor is read, unless reading gives
up. -/
theorem Derives.reads_or_tooDeep (h : Derives w t) (hls : tokensOf ls = w)
    (hmoves : c.Moves ls c') (n : Nat) :
    Reads n c t c' ∨ ∃ l c'', Fails n c (.tooDeep l) c'' := by
  obtain ⟨k, hk⟩ := h.exists_nests
  have hall := hk.reads (Nat.lt_succ_self k) hls hmoves
  obtain ⟨t', c'', hreads⟩ | ⟨e, c'', hfails⟩ := reads_or_fails n c
  · obtain ⟨rfl, rfl⟩ := hreads.unique hall
    exact .inl hreads
  · obtain ⟨l, rfl⟩ := hall.tooDeep_of_fails hfails
    exact .inr ⟨l, c'', hfails⟩

/-- With as many levels as the tokens leave constructs open, reading gives up,
whatever stands behind them. -/
theorem Opens.exists_tooDeep (h : Opens ts k) (hls : tokensOf ls = ts) (hmoves : c.Moves ls c') :
    ∃ l c'', Fails k c (.tooDeep l) c'' := by
  induction h generalizing c c' ls with
  | start => exact ⟨_, _, .levels⟩
  | condition _ ih =>
      obtain ⟨hif, us, hus, hmoves⟩ := hmoves.of_tokens_cons hls
      obtain ⟨l, c'', hfails⟩ := ih hus hmoves
      exact ⟨l, c'', .condition hif hfails⟩
  | kwThen _ =>
      obtain ⟨hif, -⟩ := hmoves.of_tokens_cons hls
      exact ⟨_, _, .condition hif .levels⟩
  | @thenBranch _ _ _ k hu _ ih =>
      obtain ⟨_, _, c₁, hfront, hlast, hmoves, hmoves₁⟩ := hmoves.of_tokens_append hls
      obtain ⟨hif, us, hus, hmoves⟩ := hmoves.of_tokens_cons hfront
      obtain ⟨hthen, vs, hvs, hmoves₁⟩ := hmoves₁.of_tokens_cons hlast
      obtain hs | ⟨l, c'', hfails⟩ := hu.reads_or_tooDeep hus hmoves k
      · obtain ⟨l, c'', hfails⟩ := ih hvs hmoves₁
        exact ⟨l, c'', .thenBranch hif hs hthen hfails⟩
      · exact ⟨l, c'', .condition hif hfails⟩
  | kwElse _ _ =>
      obtain ⟨_, _, c₁, hfront, -, hmoves, -⟩ := hmoves.of_tokens_append hls
      obtain ⟨hif, -⟩ := hmoves.of_tokens_cons hfront
      exact ⟨_, _, .condition hif .levels⟩
  | @elseBranch _ _ _ _ _ k hu hv _ ih =>
      obtain ⟨_, _, c₂, hfront, hlast, hmoves, hmoves₂⟩ := hmoves.of_tokens_append hls
      obtain ⟨_, _, c₁, hfirst, hmiddle, hmoves, hmoves₁⟩ := hmoves.of_tokens_append hfront
      obtain ⟨hif, us, hus, hmoves⟩ := hmoves.of_tokens_cons hfirst
      obtain ⟨hthen, vs, hvs, hmoves₁⟩ := hmoves₁.of_tokens_cons hmiddle
      obtain ⟨helse, ws, hws, hmoves₂⟩ := hmoves₂.of_tokens_cons hlast
      obtain hs | ⟨l, c'', hfails⟩ := hu.reads_or_tooDeep hus hmoves k
      · obtain ha | ⟨l, c'', hfails⟩ := hv.reads_or_tooDeep hvs hmoves₁ k
        · obtain ⟨l, c'', hfails⟩ := ih hws hmoves₂
          exact ⟨l, c'', .elseBranch hif hs hthen ha helse hfails⟩
        · exact ⟨l, c'', .thenBranch hif hs hthen hfails⟩
      · exact ⟨l, c'', .condition hif hfails⟩
  | inner _ ih =>
      obtain ⟨hopen, ws, hws, hmoves⟩ := hmoves.of_tokens_cons hls
      obtain ⟨l, c'', hfails⟩ := ih hws hmoves
      exact ⟨l, c'', .inner hopen hfails⟩
  | rparen _ =>
      obtain ⟨hopen, -⟩ := hmoves.of_tokens_cons hls
      exact ⟨_, _, .inner hopen .levels⟩

/-- Where reading gives up, the tokens in front leave as many constructs open as
there were levels. -/
theorem Parser.Fails.exists_opens {l : Lexeme} (h : Fails n c (.tooDeep l) c') :
    ∃ ls, c.Moves ls c' ∧ Opens (tokensOf ls) n := by
  generalize he : ParseError.tooDeep l = e at h
  induction h with
  | levels => exact ⟨[], .refl _, .start⟩
  | start _ | kwThen _ _ _ | kwElse _ _ _ _ _ | rparen _ _ _ => contradiction
  | condition hc _ ih =>
      obtain ⟨us, hus, hopens⟩ := ih he
      have hif := Cursor.Moves.over hc (by decide)
      exact ⟨_, hif.trans hus, by simpa [tokensOf, hc] using Opens.condition hopens⟩
  | thenBranch hc hs hthen _ ih =>
      obtain ⟨vs, hvs, hopens⟩ := ih he
      obtain ⟨us, _, hus, hu, -⟩ := hs.exists_nests
      have hif := Cursor.Moves.over hc (by decide)
      have hkw := Cursor.Moves.over hthen (by decide)
      refine ⟨_, (hif.trans hus).trans (hkw.trans hvs), ?_⟩
      simpa [tokensOf, hc, hthen] using Opens.thenBranch hu.derives hopens
  | elseBranch hc hs hthen ha helse _ ih =>
      obtain ⟨ws, hws, hopens⟩ := ih he
      obtain ⟨us, _, hus, hu, -⟩ := hs.exists_nests
      obtain ⟨vs, _, hvs, hv, -⟩ := ha.exists_nests
      have hif := Cursor.Moves.over hc (by decide)
      have hkw₁ := Cursor.Moves.over hthen (by decide)
      have hkw₂ := Cursor.Moves.over helse (by decide)
      refine ⟨_, ((hif.trans hus).trans (hkw₁.trans hvs)).trans (hkw₂.trans hws), ?_⟩
      simpa [tokensOf, hc, hthen, helse] using Opens.elseBranch hu.derives hv.derives hopens
  | inner hc _ ih =>
      obtain ⟨ws, hws, hopens⟩ := ih he
      have hopen := Cursor.Moves.over hc (by decide)
      exact ⟨_, hopen.trans hws, by simpa [tokensOf, hc] using Opens.inner hopens⟩

/-- More levels change nothing where reading does not give up. -/
theorem Parser.expr_mono (hnm : n ≤ m) (h : ∀ l c', expr n c ≠ .error (.tooDeep l) c') :
    expr m c = expr n c := by
  obtain ⟨t, c', hreads⟩ | ⟨e, c', hfails⟩ := reads_or_fails n c
  · rw [hreads.expr_eq, (hreads.mono hnm).expr_eq]
  · have hshallow : ∀ l, e ≠ .tooDeep l := by
      rintro l rfl
      exact h l c' hfails.expr_eq
    rw [hfails.expr_eq, (hfails.mono hshallow hnm).expr_eq]

/-- Reading that gives up also gives up with fewer levels. -/
theorem Parser.exists_tooDeep_of_le {l : Lexeme} (hnm : n ≤ m)
    (h : expr m c = .error (.tooDeep l) c') : ∃ l c', expr n c = .error (.tooDeep l) c' := by
  by_contra hnone
  have hsame := expr_mono hnm fun l c' hdeep => hnone ⟨l, c', hdeep⟩
  exact hnone ⟨l, c', hsame.symm.trans h⟩

end

/-- Reading a stream gives up exactly if some tokens at its front leave as many
constructs open as there are levels. -/
theorem tooDeep_iff {lexemes : List Lexeme} {n : Nat} :
    (∃ l c, expr n (.ofLexemes lexemes) = .error (.tooDeep l) c) ↔
      ∃ ts k, ts <+: tokensOf lexemes ∧ Leaves ts k ∧ n ≤ k := by
  constructor
  · rintro ⟨l, c, h⟩
    obtain ⟨ls, hmoves, hopens⟩ := (expr_eq_error_iff.1 h).exists_opens
    have hrest : lexemes = ls ++ c.rest := hmoves.rest
    refine ⟨tokensOf ls, n, ?_, .within hopens, Nat.le_refl n⟩
    rw [hrest, tokensOf_append]
    exact List.prefix_append _ _
  · rintro ⟨ts, k, ⟨more, hmore⟩, hleaves, hn⟩
    obtain ⟨ls, rest, rfl, hls, -⟩ := List.map_eq_append_iff.1 hmore.symm
    have hmoves : Cursor.Moves (.ofLexemes (ls ++ rest)) ls
        ⟨rest, ls.length, (Cursor.ofLexemes (ls ++ rest)).finish⟩ :=
      ⟨rfl, (Nat.zero_add _).symm, rfl⟩
    have hdeep : ∃ l c, expr k (.ofLexemes (ls ++ rest)) = .error (.tooDeep l) c := by
      cases hleaves with
      | within hopens =>
          obtain ⟨l, c, hfails⟩ := hopens.exists_tooDeep hls hmoves
          exact ⟨l, c, hfails.expr_eq⟩
      | behind _ | program _ => exact ⟨_, _, rfl⟩
    obtain ⟨l, c, hdeep⟩ := hdeep
    exact exists_tooDeep_of_le hn hdeep

/-! ## The parser without a limit -/

namespace Parser

/-- One call of the parser, in which the parts are read by `inner`. -/
def step (inner : Parser Term) : Parser Term := do
  match (← get).peek.token with
  | .litTrue =>
    let _ ← advance
    return .lit true
  | .litFalse =>
    let _ ← advance
    return .lit false
  | .kwIf =>
    let _ ← advance
    let condition ← inner
    let _ ← expect .kwThen
    let thenBranch ← inner
    let _ ← expect .kwElse
    let elseBranch ← inner
    return .ite condition thenBranch elseBranch
  | .lparen =>
    let _ ← advance
    let term ← inner
    let _ ← expect .rparen
    return term
  | _ => reject Token.exprStart

theorem expr_succ_eq_step (n : Nat) : expr (n + 1) = step (expr n) := rfl

/-- The parser with as many levels as it can use: a call for each lexeme that is
left, and one more. -/
def unbounded : Parser Term := fun c => expr (c.rest.length + 1) c

variable {c c' : Cursor} {n : Nat}

/-- With more levels than lexemes, reading does not give up. -/
theorem expr_ne_tooDeep (h : c.rest.length < n) (l : Lexeme) (c' : Cursor) :
    expr n c ≠ .error (.tooDeep l) c' := by
  intro hexpr
  obtain ⟨ls, hmoves, hopens⟩ := (expr_eq_error_iff.1 hexpr).exists_opens
  have hlength := hopens.le_length
  rw [hmoves.rest, List.length_append] at h
  rw [List.length_map] at hlength
  omega

/-- The parser without a limit agrees with one that has a limit wherever that does
not give up. -/
theorem unbounded_eq (h : ∀ l c', expr n c ≠ .error (.tooDeep l) c') : unbounded c = expr n c := by
  have henough := expr_ne_tooDeep (Nat.lt_succ_self c.rest.length)
  calc
    unbounded c = expr (max n (c.rest.length + 1)) c :=
      (expr_mono (Nat.le_max_right n _) henough).symm
    _ = expr n c := expr_mono (Nat.le_max_left n _) h

/-- What is read is passed over. -/
theorem length_le_of_unbounded {t : Term} (h : unbounded c = .ok t c') :
    c'.rest.length ≤ c.rest.length := by
  obtain ⟨ls, _, hmoves, -⟩ := (expr_eq_ok_iff.1 h).exists_nests
  rw [hmoves.rest, List.length_append]
  exact Nat.le_add_left _ _

theorem length_passed_lt {t : Token} (h : c.peek.token = t) (ht : t ≠ endOfInput) :
    c.passed.rest.length < c.rest.length := by
  have hrest : c.rest = [c.peek] ++ c.passed.rest := (Cursor.Moves.over h ht).rest
  rw [hrest, List.length_append]
  exact Nat.lt_add_of_pos_left Nat.one_pos

section

variable {α β : Type} {x y : Parser α} {f g : α → Parser β}

/-- Steps agree if their first steps do, and what follows these. -/
theorem bind_congr_at (hx : x c = y c) (hf : ∀ a c', x c = .ok a c' → f a c' = g a c') :
    (x >>= f) c = (y >>= g) c := by
  cases h : x c with
  | ok a c' => rw [bind_ok h, bind_ok (hx.symm.trans h), hf a c' h]
  | error e c' => rw [bind_error h, bind_error (hx.symm.trans h)]

/-- A token other than the end of the input is left behind when it is passed
over. -/
theorem expect_bind_congr_at {t : Token} (ht : t ≠ endOfInput) {f g : Lexeme → Parser β}
    (hf : ∀ l c', c'.rest.length < c.rest.length → f l c' = g l c') :
    (expect t >>= f) c = (expect t >>= g) c := by
  refine bind_congr_at rfl fun l c' hexpect => ?_
  by_cases hpeek : c.peek.token = t
  · rw [expect_ok hpeek] at hexpect
    cases hexpect
    exact hf _ _ (length_passed_lt hpeek ht)
  · rw [expect_error hpeek] at hexpect
    contradiction

end

/-- A call of the parser is settled by how the parts are read in the rest of the
stream. -/
theorem step_congr {x y : Parser Term} (hparts : ∀ c', c'.rest.length < c.rest.length → x c' = y c')
    (hforward : ∀ c' t c'', x c' = .ok t c'' → c''.rest.length ≤ c'.rest.length) :
    step x c = step y c := by
  have hget : (get : Parser Cursor) c = .ok c c := rfl
  have hadvance : advance c = .ok c.peek c.passed := rfl
  rw [step, step, bind_ok hget, bind_ok hget]
  cases hc : c.peek.token with
  | kwIf =>
      have hpassed := length_passed_lt hc (by decide)
      dsimp only
      rw [bind_ok hadvance, bind_ok hadvance]
      refine bind_congr_at (hparts _ hpassed) fun s c₁ hs => ?_
      refine expect_bind_congr_at (by decide) fun _ c₁' hthen => ?_
      have hfirst := hforward _ _ _ hs
      refine bind_congr_at (hparts _ (by omega)) fun a c₂ ha => ?_
      refine expect_bind_congr_at (by decide) fun _ c₂' helse => ?_
      have hsecond := hforward _ _ _ ha
      exact bind_congr_at (hparts _ (by omega)) fun _ _ _ => rfl
  | lparen =>
      dsimp only
      rw [bind_ok hadvance, bind_ok hadvance]
      exact bind_congr_at (hparts _ (length_passed_lt hc (by decide))) fun _ _ _ => rfl
  | _ => rfl

/-- The parser without a limit reads the parts as it reads the whole. -/
theorem step_unbounded : step unbounded = unbounded := by
  funext c
  have hparts (c' : Cursor) (h : c'.rest.length < c.rest.length) :
      unbounded c' = expr c.rest.length c' := unbounded_eq (expr_ne_tooDeep h)
  rw [step_congr hparts fun _ _ _ => length_le_of_unbounded, ← expr_succ_eq_step, unbounded]

/-- There is one parser that reads the parts as it reads the whole. -/
theorem step_eq_self_iff {x : Parser Term} : step x = x ↔ x = unbounded := by
  refine ⟨fun h => ?_, fun h => h ▸ step_unbounded⟩
  funext c
  -- on what is left of the stream, since the parts stand in a shorter one
  induction hn : c.rest.length using Nat.strongRecOn generalizing c with
  | ind n ih =>
      subst hn
      have hparts (c' : Cursor) (hc' : c'.rest.length < c.rest.length) : unbounded c' = x c' :=
        (ih _ hc' c' rfl).symm
      rw [← h, ← step_congr hparts fun _ _ _ => length_le_of_unbounded, step_unbounded]

/-! ## Whole sources -/

/-- `program`, with any parser for the expression. -/
def programOf (x : Parser Term) : Parser Term := do
  let t ← x
  let _ ← expect .endOfInput
  if (← get).rest.isEmpty then return t else reject [.endOfInput]

/-- A stream is given up only within its expression. -/
theorem programOf_eq_tooDeep_iff {x : Parser Term} {l : Lexeme} :
    programOf x c = .error (.tooDeep l) c' ↔ x c = .error (.tooDeep l) c' := by
  cases hx : x c with
  | error e c'' => rw [programOf, bind_error hx]
  | ok t c'' =>
      rw [programOf, bind_ok hx]
      by_cases hend : c''.peek.token = endOfInput
      · have hget : (get : Parser Cursor) c''.passed = .ok c''.passed c''.passed := rfl
        rw [bind_ok (expect_ok hend), bind_ok hget]
        split <;> simp [pure, EStateM.pure, reject]
      · rw [bind_error (expect_error hend)]
        simp

end Parser

/-- `parse`, with any parser for the expression. -/
def parseBy (x : Parser Term) (source : Text) : Except SourceError Term :=
  match tokenize source with
  | .error e => .error (.lexical e)
  | .ok lexemes =>
    match Parser.programOf x (.ofLexemes lexemes) with
    | .error e _ => .error (.grammatical e)
    | .ok t _ => .ok t

/-- `parse`, with any limit for the nesting. -/
def parseWithin (limit : Nat) : Text → Except SourceError Term := parseBy (expr (limit + 1))

theorem parse_eq_parseWithin : parse = parseWithin nestingLimit := by
  funext source
  rw [parse, parseWithin, parseBy]
  cases tokenize source with
  | error e => rfl
  | ok lexemes =>
      simp only [parseLexemes]
      have hprogram : program = programOf (expr (nestingLimit + 1)) := rfl
      rw [hprogram]
      cases programOf (expr (nestingLimit + 1)) (.ofLexemes lexemes) <;> rfl

section

variable {source : Text} {lexemes : List Lexeme} {limit : Nat} {x y : Parser Term}

theorem parseBy_of_tokenize_error {e : LexError} (h : tokenize source = .error e) :
    parseBy x source = .error (.lexical e) := by
  rw [parseBy, h]

theorem parseBy_congr (hlexemes : tokenize source = .ok lexemes)
    (h : x (.ofLexemes lexemes) = y (.ofLexemes lexemes)) :
    parseBy x source = parseBy y source := by
  have hprogram : programOf x (.ofLexemes lexemes) = programOf y (.ofLexemes lexemes) :=
    bind_congr_at h fun _ _ _ => rfl
  simp only [parseBy, hlexemes, hprogram]

/-- The source is reported as nested too deeply. -/
def ReportsDepth (source : Text) (outcome : Except SourceError Term) : Prop :=
  ∃ e p, outcome = .error e ∧ e.problem source = .ok p ∧
    p.message.text = "expression is nested too deeply"

/-- No other report has the same message. -/
theorem reportsDepth_iff {outcome : Except SourceError Term} :
    ReportsDepth source outcome ↔ ∃ l, outcome = .error (.grammatical (.tooDeep l)) := by
  constructor
  · rintro ⟨e, p, rfl, hp, hmessage⟩
    obtain ⟨p', hp', hconveys⟩ := e.exists_conveys source
    obtain rfl := Except.ok.inj (hp.symm.trans hp')
    have hfront := congrArg (List.take 5) (hconveys.text_eq.symm.trans hmessage)
    match e with
    | .lexical e => exact absurd (List.cons.inj hfront).1 (by decide)
    | .grammatical (.unexpected expected found) =>
        have hexpected : List.take 5 (SourceError.wording source
            (.grammatical (.unexpected expected found))).text = ['e', 'x', 'p', 'e', 'c'] := rfl
        rw [hexpected] at hfront
        exact absurd hfront (by decide)
    | .grammatical (.tooDeep l) => exact ⟨l, rfl⟩
  · rintro ⟨l, rfl⟩
    obtain ⟨p, hp, hconveys⟩ := SourceError.exists_conveys source (.grammatical (.tooDeep l))
    exact ⟨_, p, rfl, hp, hconveys.text_eq⟩

/-- The report is about the expression, and about a source that is read as
lexemes. -/
theorem reportsDepth_parseBy_iff :
    ReportsDepth source (parseBy x source) ↔
      ∃ lexemes, tokenize source = .ok lexemes ∧
        ∃ l c, x (.ofLexemes lexemes) = .error (.tooDeep l) c := by
  rw [reportsDepth_iff]
  cases hlexemes : tokenize source with
  | error e => simp [parseBy, hlexemes]
  | ok lexemes =>
      have hprogram : (∃ l, parseBy x source = .error (.grammatical (.tooDeep l))) ↔
          ∃ l c, programOf x (.ofLexemes lexemes) = .error (.tooDeep l) c := by
        rw [parseBy, hlexemes]
        cases hresult : programOf x (.ofLexemes lexemes) <;> simp [hresult]
      simp only [hprogram, programOf_eq_tooDeep_iff, Except.ok.injEq, exists_eq_left']

/-- A source is reported as nested too deeply exactly if some tokens at its front
leave more constructs open than the limit allows. -/
theorem reportsDepth_parseWithin_iff (hlexemes : tokenize source = .ok lexemes) :
    ReportsDepth source (parseWithin limit source) ↔
      ∃ ts k, ts <+: tokensOf lexemes ∧ Leaves ts k ∧ limit < k := by
  simp only [parseWithin, reportsDepth_parseBy_iff, hlexemes, Except.ok.injEq, exists_eq_left',
    tooDeep_iff, Nat.succ_le_iff]

/-- Without a limit there is no such report. -/
theorem not_reportsDepth_unbounded : ¬ ReportsDepth source (parseBy unbounded source) := by
  rw [reportsDepth_parseBy_iff]
  rintro ⟨lexemes, -, l, c, h⟩
  exact expr_ne_tooDeep (Nat.lt_succ_self _) l c h

/-- A source that is not reported as nested too deeply is read as without a
limit. -/
theorem parseWithin_eq_unbounded (h : ¬ ReportsDepth source (parseWithin limit source)) :
    parseWithin limit source = parseBy unbounded source := by
  cases hlexemes : tokenize source with
  | error e =>
      rw [parseWithin, parseBy_of_tokenize_error hlexemes, parseBy_of_tokenize_error hlexemes]
  | ok lexemes =>
      refine parseBy_congr hlexemes (unbounded_eq fun l c hdeep => h ?_).symm
      exact reportsDepth_parseBy_iff.2 ⟨lexemes, hlexemes, l, c, hdeep⟩

end

/-- **The nesting limit strikes only deep input, and is never masked.**  Whatever
the limit is from 300 on and below 2000, a source is reported as nested too deeply
only if some beginning of a program at its front leaves more than 300 constructs
open, and always if one leaves 2000 open, whatever follows.  A source that cannot be
read as lexemes is rejected for that alone.  And where nothing is reported as nested
too deeply, the outcome is that of the one parser that has no limit. -/
theorem depth_limit_exact :
    parse = parseWithin nestingLimit ∧
      (∀ x, step x = x ↔ x = unbounded) ∧
      ∀ (limit : Nat), 300 ≤ limit → limit < 2000 → ∀ source,
        (∀ lexemes, tokenize source = .ok lexemes →
          (ReportsDepth source (parseWithin limit source) →
            ∃ ts k, ts <+: tokensOf lexemes ∧ ProgramPrefix ts ∧ Leaves ts k ∧ 300 < k) ∧
          ((∃ ts k, ts <+: tokensOf lexemes ∧ ProgramPrefix ts ∧ Leaves ts k ∧ 2000 ≤ k) →
            ReportsDepth source (parseWithin limit source))) ∧
        (∀ e, tokenize source = .error e → parseWithin limit source = .error (.lexical e)) ∧
        (¬ ReportsDepth source (parseWithin limit source) →
          parseWithin limit source = parseBy unbounded source) ∧
        ¬ ReportsDepth source (parseBy unbounded source) := by
  refine ⟨parse_eq_parseWithin, fun x => step_eq_self_iff, fun limit hlow hhigh source => ?_⟩
  refine ⟨fun lexemes hlexemes => ?_, fun e => parseBy_of_tokenize_error,
    parseWithin_eq_unbounded, not_reportsDepth_unbounded⟩
  rw [reportsDepth_parseWithin_iff hlexemes]
  constructor
  · rintro ⟨ts, k, hts, hleaves, hk⟩
    exact ⟨ts, k, hts, programPrefix_iff_leaves.2 ⟨k, hleaves⟩, hleaves, by omega⟩
  · rintro ⟨ts, k, hts, -, hleaves, hk⟩
    exact ⟨ts, k, hts, hleaves, by omega⟩

/-- Parentheses that are opened and not closed, with a keyword behind that fits
nowhere. -/
def unclosed (n : Nat) : List Token := List.replicate n lparen ++ [kwElse]

theorem spells_unclosed (n : Nat) : Spells ((unclosed n).flatMap spelling) (unclosed n) :=
  spells_flatMap_spelling (by simp [unclosed, List.mem_replicate])

theorem opens_replicate (n : Nat) : Opens (List.replicate n lparen) n := by
  induction n with
  | zero => exact .start
  | succ n ih => exact .inner ih

theorem depth_limit_exact_unclosed :
    300 ≤ nestingLimit ∧ nestingLimit < 2000 ∧
      ReportsDepth ((unclosed 2000).flatMap spelling) (parse ((unclosed 2000).flatMap spelling)) ∧
      parse ((unclosed 2).flatMap spelling) =
        parseBy unbounded ((unclosed 2).flatMap spelling) := by
  have hlow : 300 ≤ nestingLimit := by decide
  have hhigh : nestingLimit < 2000 := by decide
  obtain ⟨hparse, -, hlimit⟩ := depth_limit_exact
  refine ⟨hlow, hhigh, ?_, ?_⟩
  · obtain ⟨lexemes, hlexemes, htokens⟩ := (spells_unclosed 2000).tokenize
    obtain ⟨hlexed, -⟩ := hlimit nestingLimit hlow hhigh ((unclosed 2000).flatMap spelling)
    have hleaves : Leaves (List.replicate 2000 lparen) 2000 := .within (opens_replicate 2000)
    rw [hparse]
    refine (hlexed lexemes hlexemes).2
      ⟨_, 2000, ?_, programPrefix_iff_leaves.2 ⟨_, hleaves⟩, hleaves, Nat.le_refl _⟩
    rw [htokens, unclosed, List.append_assoc]
    exact List.prefix_append _ _
  · obtain ⟨lexemes, hlexemes, htokens⟩ := (spells_unclosed 2).tokenize
    obtain ⟨hlexed, -, hshallow, -⟩ :=
      hlimit nestingLimit hlow hhigh ((unclosed 2).flatMap spelling)
    rw [hparse]
    refine hshallow fun hdeep => ?_
    -- more than 300 open constructs take more than 300 tokens
    obtain ⟨ts, k, hts, -, hleaves, hk⟩ := (hlexed lexemes hlexemes).1 hdeep
    have hlength := hts.length_le
    rw [htokens] at hlength
    cases hleaves with
    | within hopens =>
        have hopen := hopens.le_length
        simp only [unclosed, List.length_append, List.length_replicate, List.length_singleton]
          at hlength
        omega
    | behind _ | program _ => omega

end Conditional
