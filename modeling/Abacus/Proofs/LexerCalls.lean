import Abacus.Proofs.LexerLayout

/-! # One track for all calls

A lexer can be asked for a token, for an item, for all tokens or for all items, in any order. Whatever
is asked, it moves along one track that the text fixes: the tokens with the offsets where they end,
and behind them the end of the input or a failure. A reader on the track is a list of what is still to
come, an offset and a flag. Lexer and reader answer every sequence of calls alike, so what holds of
readers holds of lexers.
-/
namespace Abacus

inductive Call where
  | nextToken
  | next
  | allTokens
  | drain
deriving DecidableEq

inductive Answer where
  | token (r : Except LexError Token)
  | item (r : Option (Except LexError Token))
  | tokens (r : Except LexError (List Token))
  | items (r : List (Except LexError Token))
deriving DecidableEq

namespace Answer

def delivered : Answer → List Token
  | token (.ok t) => if t.isEnd then [] else [t]
  | token (.error _) => []
  | item (some (.ok t)) => [t]
  | item _ => []
  | tokens (.ok ts) => ts
  | tokens (.error _) => []
  | items rs => rs.filterMap Except.toOption

/-- The answer shows that no token is left. -/
def isLast : Answer → Bool
  | token (.ok t) => t.isEnd
  | item (some (.ok _)) => false
  | _ => true

end Answer

section
variable {σ : Type} (call : σ → Call → Answer × σ) (offset : σ → Nat)

def answers (s : σ) : List Call → List (Answer × Nat)
  | [] => []
  | c :: cs => ((call s c).1, offset (call s c).2) :: answers (call s c).2 cs

def after (s : σ) (cs : List Call) : σ := cs.foldl (fun s c => (call s c).2) s

theorem after_induction {call} {P : σ → Prop} (hstep : ∀ s c, P s → P (call s c).2) {s : σ} (h : P s)
    (cs : List Call) : P (after call s cs) := by
  induction cs generalizing s with
  | nil => exact h
  | cons c cs ih => exact ih (hstep s c h)

theorem after_append (s : σ) (cs : List Call) (c : Call) (ds : List Call) :
    after call s (cs ++ c :: ds) = after call (call (after call s cs) c).2 ds := by
  rw [after, List.foldl_append]
  rfl

end

namespace Lexer

def call (l : Lexer) : Call → Answer × Lexer
  | .nextToken => (.token l.nextToken.1, l.nextToken.2)
  | .next => (.item l.next?.1, l.next?.2)
  | .allTokens => (.tokens l.allTokens.1, l.allTokens.2)
  | .drain => (.items l.drain.1, l.drain.2)

/-- Asking for all tokens is asking for one after the other, up to the end or a failure. -/
theorem allTokens_eq (l : Lexer) :
    l.allTokens = match l.nextToken with
      | (.error e, l') => (.error e, l')
      | (.ok t, l') => if t.isEnd then (.ok [], l') else (l'.allTokens.1.map (t :: ·), l'.allTokens.2) := by
  rcases hnext : l.cursor.next with ⟨e | t, c⟩
  · simp only [allTokens, nextToken, hnext, Cursor.stream_of_error hnext]
  · cases ht : t.isEnd with
    | true =>
      obtain rfl := Token.isEnd_eq_true.mp ht
      simp only [allTokens, nextToken, hnext, Cursor.stream_of_end hnext, ht, ↓reduceIte]
    | false =>
      simp only [allTokens, nextToken, hnext, Cursor.stream_of_token hnext ht, ht, Bool.false_eq_true,
        ↓reduceIte]
      cases c.stream.failure <;> rfl

/-- Draining is asking for items until there is none. -/
theorem drain_eq (l : Lexer) :
    l.drain = match l.next? with
      | (none, l') => ([], l')
      | (some r, l') => (r :: l'.drain.1, l'.drain.2) := by
  cases hfailed : l.failed with
  | true => simp only [drain, next?, hfailed, ↓reduceIte]
  | false =>
    rcases hnext : l.cursor.next with ⟨e | t, c⟩
    · simp [drain, next?, hfailed, hnext, Cursor.stream_of_error hnext]
    · cases ht : t.isEnd with
      | true =>
        obtain rfl := Token.isEnd_eq_true.mp ht
        simp [drain, next?, hfailed, hnext, Cursor.stream_of_end hnext, ht]
      | false => simp [drain, next?, hfailed, hnext, Cursor.stream_of_token hnext ht, ht]

end Lexer

/-- Tokens with the offsets where they end, the failure behind them if there is one, and the offset
where reading stops. -/
structure Track where
  ends : List (Token × Nat)
  failure : Option LexError
  stop : Nat
deriving DecidableEq

namespace Track

def tokens (tr : Track) : List Token := tr.ends.map Prod.fst

/-- What a lexer answers that has no token left. -/
def terminal {α : Type} (tr : Track) (nothing : α) : Except LexError α :=
  match tr.failure with
  | none => .ok nothing
  | some e => .error e

end Track

/-- What is still to come on a track, and whether a failure was delivered as an item. -/
structure Reader where
  ahead : List (Token × Nat)
  offset : Nat
  closed : Bool
deriving DecidableEq

namespace Reader
variable (tr : Track)

def start : Reader := ⟨tr.ends, 0, false⟩

def stopped (closed : Bool) : Reader := ⟨[], tr.stop, closed⟩

def call (r : Reader) : Call → Answer × Reader
  | .nextToken =>
    match r.ahead with
    | (t, e) :: rest => (.token (.ok t), ⟨rest, e, r.closed⟩)
    | [] => (.token (tr.terminal .endOfInput), stopped tr r.closed)
  | .next =>
    if r.closed then (.item none, r)
    else
      match r.ahead with
      | (t, e) :: rest => (.item (some (.ok t)), ⟨rest, e, false⟩)
      | [] => (.item (tr.failure.map .error), stopped tr tr.failure.isSome)
  | .allTokens => (.tokens (tr.terminal (r.ahead.map Prod.fst)), stopped tr r.closed)
  | .drain =>
    if r.closed then (.items [], r)
    else
      (.items (r.ahead.map (fun p => .ok p.1) ++ tr.failure.toList.map .error), stopped tr tr.failure.isSome)

/-! ## What readers do -/

/-- No token is left, and the reader stands where reading stops. -/
def Settled (r : Reader) : Prop := r.ahead = [] ∧ r.offset = tr.stop

/-- The offsets ascend from where the reader stands to where reading stops, and only a reader that has
arrived there has delivered a failure. -/
structure Sound (r : Reader) : Prop where
  tokens : ∀ p ∈ r.ahead, p.1.isEnd = false
  ordered : (r.offset :: (r.ahead.map Prod.snd ++ [tr.stop])).Pairwise (· ≤ ·)
  settled : r.closed = true → r.Settled tr

/-- The sequence of items has ended: a failure was delivered, or there is none to deliver. -/
def Exhausted (r : Reader) : Prop := r.Settled tr ∧ (r.closed = true ∨ tr.failure = none)

variable {tr}

theorem settled_stopped (closed : Bool) : (stopped tr closed).Settled tr := ⟨rfl, rfl⟩

theorem sound_stopped (closed : Bool) : (stopped tr closed).Sound tr :=
  ⟨nofun, by simp [stopped], fun _ => settled_stopped closed⟩

/-- A call takes one token off, or finds the sequence closed, or moves the reader to the stop. -/
theorem Sound.call_cases {r : Reader} (h : r.Sound tr) (c : Call) :
    (∃ t e rest, r.ahead = (t, e) :: rest ∧ (r.call tr c).2 = ⟨rest, e, r.closed⟩ ∧
      (r.call tr c).1.delivered = [t] ∧ (r.call tr c).1.isLast = false) ∨
    (r.closed = true ∧ (r.call tr c).2 = r ∧ (r.call tr c).1.delivered = []) ∨
    ∃ closed, (r.call tr c).2 = stopped tr closed ∧ (r.closed = true → closed = true) ∧
      (r.call tr c).1.delivered <+: r.ahead.map Prod.fst := by
  cases c with
  | nextToken =>
    simp only [call]
    split
    · rename_i t e rest hahead
      have ht : t.isEnd = false := h.tokens (t, e) (by simp [hahead])
      exact .inl ⟨t, e, rest, hahead, rfl, by simp [Answer.delivered, ht], by simp [Answer.isLast, ht]⟩
    · refine .inr (.inr ⟨r.closed, rfl, id, ?_⟩)
      cases hf : tr.failure <;> simp [Answer.delivered, Track.terminal, hf, Token.isEnd]
  | next =>
    cases hclosed : r.closed with
    | true =>
      simp only [call, hclosed, ↓reduceIte]
      exact .inr (.inl ⟨trivial, trivial, rfl⟩)
    | false =>
      simp only [call, hclosed, Bool.false_eq_true, ↓reduceIte]
      split
      · rename_i t e rest hahead
        exact .inl ⟨t, e, rest, hahead, rfl, rfl, rfl⟩
      · refine .inr (.inr ⟨_, rfl, False.elim, ?_⟩)
        cases tr.failure <;> simp [Answer.delivered]
  | allTokens =>
    refine .inr (.inr ⟨r.closed, rfl, id, ?_⟩)
    cases hf : tr.failure <;> simp [call, Answer.delivered, Track.terminal, hf]
  | drain =>
    cases hclosed : r.closed with
    | true =>
      simp only [call, hclosed, ↓reduceIte]
      exact .inr (.inl ⟨trivial, trivial, rfl⟩)
    | false =>
      simp only [call, hclosed, Bool.false_eq_true, ↓reduceIte]
      refine .inr (.inr ⟨_, rfl, False.elim, ?_⟩)
      have hok : (r.ahead.map fun p => (Except.ok p.1 : Except LexError Token)).filterMap
          Except.toOption = r.ahead.map Prod.fst := by
        rw [List.filterMap_map]
        exact congrFun (List.filterMap_eq_map' (f := Prod.fst)) r.ahead
      have hfailure : (tr.failure.toList.map (Except.error (α := Token))).filterMap Except.toOption = [] := by
        cases tr.failure <;> rfl
      rw [Answer.delivered, List.filterMap_append, hok, hfailure, List.append_nil]

theorem Sound.offset_le_stop {r : Reader} (h : r.Sound tr) : r.offset ≤ tr.stop := by
  have hall := (List.pairwise_cons.mp h.ordered).1
  exact hall tr.stop (by simp)

theorem Sound.call {r : Reader} (h : r.Sound tr) (c : Call) :
    (r.call tr c).2.Sound tr ∧ r.offset ≤ (r.call tr c).2.offset := by
  rcases h.call_cases c with ⟨t, e, rest, hahead, hr, -, -⟩ | ⟨-, hr, -⟩ | ⟨closed, hr, -, -⟩
  · have hordered := h.ordered
    rw [hahead, List.map_cons, List.cons_append] at hordered
    obtain ⟨hall, htail⟩ := List.pairwise_cons.mp hordered
    rw [hr]
    refine ⟨⟨?_, htail, ?_⟩, hall e List.mem_cons_self⟩
    · intro p hp
      exact h.tokens p (by simp [hahead, hp])
    · intro hclosed
      have hnil := (h.settled hclosed).1
      simp [hahead] at hnil
  · rw [hr]
    exact ⟨h, Nat.le_refl _⟩
  · rw [hr]
    exact ⟨sound_stopped closed, h.offset_le_stop⟩

theorem Sound.offsets {r : Reader} (h : r.Sound tr) (cs : List Call) :
    (r.offset :: ((answers (Reader.call tr) Reader.offset r cs).map Prod.snd ++ [tr.stop])).Pairwise
      (· ≤ ·) := by
  induction cs generalizing r with
  | nil => simpa [answers] using h.offset_le_stop
  | cons c cs ih =>
    obtain ⟨hnext, hle⟩ := h.call c
    have hrest := ih hnext
    rw [answers, List.map_cons, List.cons_append]
    refine List.pairwise_cons.mpr ⟨?_, hrest⟩
    intro o ho
    rcases List.mem_cons.mp ho with rfl | ho
    · exact hle
    · exact hle.trans ((List.pairwise_cons.mp hrest).1 o ho)

theorem Sound.delivered {r : Reader} (h : r.Sound tr) (cs : List Call) :
    (answers (Reader.call tr) Reader.offset r cs).flatMap (fun p => p.1.delivered) <+:
      r.ahead.map Prod.fst := by
  induction cs generalizing r with
  | nil => exact List.nil_prefix
  | cons c cs ih =>
    have hrest := ih (h.call c).1
    rw [answers, List.flatMap_cons]
    rcases h.call_cases c with ⟨t, e, rest, hahead, hr, hd, -⟩ | ⟨-, hr, hd⟩ | ⟨closed, hr, -, hd⟩
    · rw [hr] at hrest
      rw [hd, hr, hahead, List.map_cons, List.singleton_append]
      exact List.cons_prefix_cons.mpr ⟨rfl, hrest⟩
    · rw [hr] at hrest
      rw [hd, hr, List.nil_append]
      exact hrest
    · rw [hr, stopped, List.map_nil, List.prefix_nil] at hrest
      rw [hr, stopped, hrest, List.append_nil]
      exact hd

theorem Sound.settled_of_isLast {r : Reader} (h : r.Sound tr) {c : Call}
    (hlast : (r.call tr c).1.isLast = true) : (r.call tr c).2.Settled tr := by
  rcases h.call_cases c with ⟨t, e, rest, -, -, -, hnot⟩ | ⟨hclosed, hr, -⟩ | ⟨closed, hr, -, -⟩
  · simp [hlast] at hnot
  · rw [hr]
    exact h.settled hclosed
  · rw [hr]
    exact settled_stopped closed

theorem Settled.call {r : Reader} (h : r.Settled tr) (hs : r.Sound tr) (c : Call) :
    (r.call tr c).2.Settled tr := by
  rcases hs.call_cases c with ⟨t, e, rest, hahead, -, -, -⟩ | ⟨-, hr, -⟩ | ⟨closed, hr, -, -⟩
  · simp [h.1] at hahead
  · rw [hr]
    exact h
  · rw [hr]
    exact settled_stopped closed

theorem Exhausted.call {r : Reader} (h : r.Exhausted tr) (hs : r.Sound tr) (c : Call) :
    (r.call tr c).2.Exhausted tr := by
  refine ⟨h.1.call hs c, ?_⟩
  rcases h.2 with hclosed | hfailure
  · left
    rcases hs.call_cases c with ⟨t, e, rest, -, hr, -, -⟩ | ⟨-, hr, -⟩ | ⟨closed, hr, hkeep, -⟩
    · rw [hr]
      exact hclosed
    · rw [hr]
      exact hclosed
    · rw [hr]
      exact hkeep hclosed
  · exact .inr hfailure

theorem Exhausted.next {r : Reader} (h : r.Exhausted tr) : (r.call tr .next).1 = .item none := by
  obtain ⟨⟨hahead, -⟩, hended⟩ := h
  cases hclosed : r.closed with
  | true => simp [Reader.call, hclosed]
  | false =>
    have hfailure : tr.failure = none := by simpa [hclosed] using hended
    simp [Reader.call, hclosed, hahead, hfailure]

/-- Behind the failure, and behind the first time that there is nothing, the sequence has ended. -/
theorem Sound.exhausted_of_next {r : Reader} (h : r.Sound tr)
    (hnext : ∀ t, (r.call tr .next).1 ≠ .item (some (.ok t))) : (r.call tr .next).2.Exhausted tr := by
  cases hclosed : r.closed with
  | true =>
    simp only [Reader.call, hclosed, ↓reduceIte]
    exact ⟨h.settled hclosed, .inl hclosed⟩
  | false =>
    simp only [Reader.call, hclosed, Bool.false_eq_true, ↓reduceIte] at hnext ⊢
    split at hnext
    · exact absurd rfl (hnext _)
    · refine ⟨settled_stopped _, ?_⟩
      cases hf : tr.failure with
      | none => exact .inr rfl
      | some e => exact .inl rfl

theorem Sound.after {r : Reader} (h : r.Sound tr) (cs : List Call) :
    (after (Reader.call tr) r cs).Sound tr := after_induction (fun _ c hr => (hr.call c).1) h cs

theorem Sound.settled_after {r : Reader} (h : r.Sound tr) {cs : List Call} {c : Call}
    (hlast : ((Abacus.after (Reader.call tr) r cs).call tr c).1.isLast = true) (ds : List Call) :
    (Abacus.after (Reader.call tr) r (cs ++ c :: ds)).Settled tr := by
  have hsound := h.after cs
  have hboth := after_induction (P := fun r : Reader => r.Settled tr ∧ r.Sound tr)
    (fun r c hr => ⟨hr.1.call hr.2 c, (hr.2.call c).1⟩)
    ⟨hsound.settled_of_isLast hlast, (hsound.call c).1⟩ ds
  rw [after_append]
  exact hboth.1

theorem Sound.exhausted_after {r : Reader} (h : r.Sound tr) {cs : List Call}
    (hnext : ∀ t, ((Abacus.after (Reader.call tr) r cs).call tr .next).1 ≠ .item (some (.ok t)))
    (ds : List Call) : (Abacus.after (Reader.call tr) r (cs ++ .next :: ds)).Exhausted tr := by
  have hsound := h.after cs
  have hboth := after_induction (P := fun r : Reader => r.Exhausted tr ∧ r.Sound tr)
    (fun r c hr => ⟨hr.1.call hr.2 c, (hr.2.call c).1⟩)
    ⟨hsound.exhausted_of_next hnext, (hsound.call .next).1⟩ ds
  rw [after_append]
  exact hboth.1

end Reader

/-! ## Lexers are readers -/

/-- The tokens of the pieces, with the offsets where their spellings end. -/
def pieceEnds (offset : Nat) : List Piece → List (Token × Nat)
  | [] => []
  | q :: qs => (q.token, offset + byteLength q.text) :: pieceEnds (offset + byteLength q.text) qs

theorem map_fst_pieceEnds (offset : Nat) (qs : List Piece) :
    (pieceEnds offset qs).map Prod.fst = qs.map Piece.token := by
  induction qs generalizing offset with
  | nil => rfl
  | cons q qs ih => rw [pieceEnds, List.map_cons, ih, List.map_cons]

theorem isEnd_of_mem_pieceEnds {offset : Nat} {qs : List Piece} :
    ∀ p ∈ pieceEnds offset qs, p.1.isEnd = false := by
  intro p hp
  have hmem : p.1 ∈ qs.map Piece.token := map_fst_pieceEnds offset qs ▸ List.mem_map_of_mem hp
  obtain ⟨q, -, hq⟩ := List.mem_map.mp hmem
  exact hq ▸ q.spelled.isEnd

theorem ordered_pieceEnds (offset : Nat) (qs : List Piece) (tail : List Char) :
    (offset :: ((pieceEnds offset qs).map Prod.snd ++
      [offset + byteLength (piecesText qs ++ tail)])).Pairwise (· ≤ ·) := by
  induction qs generalizing offset with
  | nil => simp [pieceEnds]
  | cons q qs ih =>
    have hrest := ih (offset + byteLength q.text)
    have hbytes : offset + byteLength (piecesText (q :: qs) ++ tail) =
        offset + byteLength q.text + byteLength (piecesText qs ++ tail) := by
      rw [piecesText_cons, Piece.text]
      simp only [byteLength_append]
      omega
    rw [pieceEnds, List.map_cons, List.cons_append, hbytes]
    refine List.pairwise_cons.mpr ⟨?_, hrest⟩
    intro o ho
    rcases List.mem_cons.mp ho with rfl | ho
    · exact Nat.le_add_right _ _
    · exact (Nat.le_add_right _ _).trans ((List.pairwise_cons.mp hrest).1 o ho)

/-- The track of a text that is laid out as far as it can be read. -/
def Track.ofReach (qs : List Piece) (tail rest : List Char) : Track :=
  let stop := byteLength (piecesText qs ++ tail)
  ⟨pieceEnds 0 qs, verdict stop rest, stop⟩

/-- The lexer stands on the track where the reader stands: before the same pieces, and with the same
rest behind them. -/
structure Follows (tr : Track) (rest : List Char) (l : Lexer) (r : Reader) : Prop where
  pieces : ∃ qs tail, Reach l.cursor.rest qs tail rest ∧ r.ahead = pieceEnds l.cursor.offset qs ∧
    tr.stop = l.cursor.offset + byteLength (piecesText qs ++ tail)
  failure : tr.failure = verdict tr.stop rest
  offset : r.offset = l.cursor.offset
  closed : r.closed = l.failed

theorem Reach.settled {text : List Char} {qs : List Piece} {tail rest : List Char}
    (h : Reach text qs tail rest) : Reach rest [] [] rest :=
  ⟨rfl, trivial, nofun, h.bars, h.stuck⟩

theorem Follows.stopped {tr : Track} {rest : List Char} {l : Lexer} {r : Reader}
    (h : Follows tr rest l r) (closed : Bool) :
    Follows tr rest ⟨⟨tr.stop, rest⟩, closed⟩ (Reader.stopped tr closed) := by
  obtain ⟨qs, tail, hreach, -, -⟩ := h.pieces
  exact ⟨⟨[], [], hreach.settled, rfl, rfl⟩, h.failure, rfl, rfl⟩

theorem Follows.next {tr : Track} {rest : List Char} {l : Lexer} {r : Reader}
    (h : Follows tr rest l r) :
    (∃ t e ahead c, r.ahead = (t, e) :: ahead ∧ t.isEnd = false ∧ l.cursor.next = (.ok t, c) ∧
      ∀ closed, Follows tr rest ⟨c, closed⟩ ⟨ahead, e, closed⟩) ∨
    (r.ahead = [] ∧ l.cursor.next = (tr.terminal .endOfInput, ⟨tr.stop, rest⟩)) := by
  obtain ⟨qs, tail, hreach, hahead, hstop⟩ := h.pieces
  have htext := hreach.text_eq
  cases qs with
  | nil =>
    right
    have hcursor : l.cursor = ⟨l.cursor.offset, tail ++ rest⟩ := by
      rw [← List.nil_append (tail ++ rest)]
      exact congrArg (Cursor.mk _) htext
    have hnext := Cursor.next_stuck l.cursor.offset hreach.blank hreach.bars hreach.stuck
    have hstop' : l.cursor.offset + byteLength tail = tr.stop := hstop.symm
    rw [← hcursor, hstop', ← h.failure] at hnext
    refine ⟨hahead, hnext.trans ?_⟩
    cases hf : tr.failure <;> simp [Track.terminal, hf]
  | cons q qs =>
    left
    rw [piecesText_cons, List.append_assoc, List.append_assoc] at htext
    have hcursor : l.cursor = ⟨l.cursor.offset, q.gap ++ (q.chars ++ (piecesText qs ++ (tail ++ rest)))⟩ :=
      congrArg (Cursor.mk _) htext
    have hnext := Cursor.next_piece l.cursor.offset q hreach.munched.1
    rw [← hcursor] at hnext
    refine ⟨q.token, _, _, _, hahead, q.spelled.isEnd, hnext, fun closed => ⟨⟨qs, tail, ?_, rfl, ?_⟩,
      h.failure, rfl, rfl⟩⟩
    · exact ⟨rfl, hreach.munched.2, hreach.blank, hreach.bars, hreach.stuck⟩
    · rw [hstop, piecesText_cons, Piece.text]
      simp only [byteLength_append]
      omega

theorem Follows.stream {tr : Track} {rest : List Char} {l : Lexer} {r : Reader}
    (h : Follows tr rest l r) :
    l.cursor.stream = ⟨r.ahead.map Prod.fst, tr.failure, ⟨tr.stop, rest⟩⟩ := by
  obtain ⟨qs, tail, hreach, hahead, hstop⟩ := h.pieces
  rw [Cursor.stream_of_reach l.cursor.offset hreach, hahead, map_fst_pieceEnds, h.failure, hstop]

theorem Follows.call {tr : Track} {rest : List Char} {l : Lexer} {r : Reader}
    (h : Follows tr rest l r) (c : Call) :
    (l.call c).1 = (r.call tr c).1 ∧ Follows tr rest (l.call c).2 (r.call tr c).2 := by
  have hclosed := h.closed
  cases c with
  | nextToken =>
    rcases h.next with ⟨t, e, ahead, c, hahead, -, hnext, hfollows⟩ | ⟨hahead, hnext⟩
    · simp only [Lexer.call, Lexer.nextToken, hnext, Reader.call, hahead, hclosed]
      exact ⟨trivial, hfollows l.failed⟩
    · simp only [Lexer.call, Lexer.nextToken, hnext, Reader.call, hahead, hclosed]
      exact ⟨trivial, h.stopped l.failed⟩
  | next =>
    cases hfailed : l.failed with
    | true =>
      rw [hfailed] at hclosed
      simp only [Lexer.call, Lexer.next?, hfailed, Reader.call, hclosed, ↓reduceIte]
      exact ⟨trivial, h⟩
    | false =>
      rw [hfailed] at hclosed
      rcases h.next with ⟨t, e, ahead, c, hahead, ht, hnext, hfollows⟩ | ⟨hahead, hnext⟩
      · simp only [Lexer.call, Lexer.next?, hfailed, hnext, ht, Reader.call, hclosed, hahead,
          Bool.false_eq_true, ↓reduceIte]
        exact ⟨trivial, hfollows false⟩
      · have hstopped := h.stopped tr.failure.isSome
        cases hf : tr.failure with
        | none =>
          rw [Track.terminal, hf] at hnext
          simp only [hf, Option.isSome_none] at hstopped
          simp only [Lexer.call, Lexer.next?, hfailed, hnext, Token.isEnd, Reader.call, hclosed, hahead, hf,
            Bool.false_eq_true, ↓reduceIte, Option.map_none, Option.isSome_none]
          exact ⟨trivial, hstopped⟩
        | some x =>
          rw [Track.terminal, hf] at hnext
          simp only [hf, Option.isSome_some] at hstopped
          simp only [Lexer.call, Lexer.next?, hfailed, hnext, Reader.call, hclosed, hahead, hf,
            Bool.false_eq_true, ↓reduceIte, Option.map_some, Option.isSome_some]
          exact ⟨trivial, hstopped⟩
  | allTokens =>
    have hstream := h.stream
    simp only [Lexer.call, Lexer.allTokens, hstream, Reader.call, hclosed]
    refine ⟨?_, h.stopped l.failed⟩
    cases hf : tr.failure <;> simp [Track.terminal, hf]
  | drain =>
    cases hfailed : l.failed with
    | true =>
      rw [hfailed] at hclosed
      simp only [Lexer.call, Lexer.drain, hfailed, Reader.call, hclosed, ↓reduceIte]
      exact ⟨trivial, h⟩
    | false =>
      rw [hfailed] at hclosed
      have hstream := h.stream
      simp only [Lexer.call, Lexer.drain, hfailed, hstream, Reader.call, hclosed, Bool.false_eq_true,
        ↓reduceIte, List.map_map]
      exact ⟨rfl, h.stopped _⟩

theorem Follows.answers {tr : Track} {rest : List Char} {l : Lexer} {r : Reader}
    (h : Follows tr rest l r) (cs : List Call) :
    answers Lexer.call Lexer.offset l cs = answers (Reader.call tr) Reader.offset r cs := by
  induction cs generalizing l r with
  | nil => rfl
  | cons c cs ih =>
    obtain ⟨hanswer, hfollows⟩ := h.call c
    have hoffset : (l.call c).2.offset = (r.call tr c).2.offset := hfollows.offset.symm
    rw [Abacus.answers, Abacus.answers, hanswer, hoffset, ih hfollows]

theorem Follows.after {tr : Track} {rest : List Char} {l : Lexer} {r : Reader}
    (h : Follows tr rest l r) (cs : List Call) :
    Follows tr rest (after Lexer.call l cs) (after (Reader.call tr) r cs) := by
  induction cs generalizing l r with
  | nil => exact h
  | cons c cs ih => exact ih (h.call c).2

theorem follows_start {text : String} {qs : List Piece} {tail rest : List Char}
    (h : Reach text.toList qs tail rest) :
    Follows (.ofReach qs tail rest) rest { cursor := .ofText text } (.start (.ofReach qs tail rest)) :=
  ⟨⟨qs, tail, h, rfl, (Nat.zero_add _).symm⟩, rfl, rfl, rfl⟩

theorem Reader.sound_start (qs : List Piece) (tail rest : List Char) :
    (Reader.start (.ofReach qs tail rest)).Sound (.ofReach qs tail rest) where
  tokens := isEnd_of_mem_pieceEnds
  ordered := by
    have hordered := ordered_pieceEnds 0 qs tail
    rw [Nat.zero_add] at hordered
    exact hordered
  settled := nofun

theorem Reach.stop_le {text : String} {qs : List Piece} {tail rest : List Char}
    (h : Reach text.toList qs tail rest) :
    byteLength (piecesText qs ++ tail) + byteLength rest = text.utf8ByteSize := by
  have hbytes : byteLength text.toList = text.utf8ByteSize := by
    rw [byteLength, String.ofList_toList]
  rw [← hbytes, h.text_eq, ← List.append_assoc, byteLength_append (piecesText qs ++ tail)]

/-- On every text that is not empty there is one track that all sequences of calls follow. The offset
ascends and stays within the text; tokens come in the order of the track, none of them twice and none
left out; where no token is left every later answer says so in the same way and the offset stays; and
behind a failure or nothing the sequence of items brings nothing more. -/
theorem calls_follow_one_track {text : String} (hne : text ≠ "") :
    ∃ l tr, Lexer.ofText text = .ok l ∧
      (∃ qs tail rest, Reach text.toList qs tail rest ∧ tr = Track.ofReach qs tail rest) ∧
      tr.stop ≤ text.utf8ByteSize ∧ (tr.failure = none → tr.stop = text.utf8ByteSize) ∧
      (∀ cs, answers Lexer.call Lexer.offset l cs =
        answers (Reader.call tr) Reader.offset (.start tr) cs) ∧
      (∀ cs, ((answers Lexer.call Lexer.offset l cs).map Prod.snd ++ [tr.stop]).Pairwise (· ≤ ·)) ∧
      (∀ cs, (answers Lexer.call Lexer.offset l cs).flatMap (fun p => p.1.delivered) <+: tr.tokens) ∧
      (∀ cs c ds, ((after Lexer.call l cs).call c).1.isLast = true →
        let l' := after Lexer.call l (cs ++ c :: ds)
        l'.offset = tr.stop ∧ l'.nextToken.1 = tr.terminal .endOfInput ∧
          l'.allTokens.1 = tr.terminal []) ∧
      ∀ cs ds, (∀ t, (after Lexer.call l cs).next?.1 ≠ some (.ok t)) →
        (after Lexer.call l (cs ++ .next :: ds)).next?.1 = none := by
  obtain ⟨qs, tail, rest, hreach⟩ := exists_reach text.toList
  have hfollows := follows_start hreach
  have hsound := Reader.sound_start qs tail rest
  have hbytes := hreach.stop_le
  generalize htr : Track.ofReach qs tail rest = tr at hfollows hsound
  have hstop : byteLength (piecesText qs ++ tail) = tr.stop := by rw [← htr, Track.ofReach]
  rw [hstop] at hbytes
  refine ⟨_, tr, ofText_eq_ok hne, ⟨qs, tail, rest, hreach, htr.symm⟩, by omega, ?_, ?_, ?_, ?_, ?_, ?_⟩
  · intro hnone
    have hverdict := hfollows.failure.symm.trans hnone
    cases rest with
    | nil => simpa [byteLength] using hbytes
    | cons found rest =>
      obtain ⟨e, he⟩ := verdict_cons_isSome tr.stop found rest
      simp [he] at hverdict
  · exact hfollows.answers
  · intro cs
    rw [hfollows.answers cs]
    exact (List.pairwise_cons.mp (hsound.offsets cs)).2
  · intro cs
    rw [hfollows.answers cs]
    exact hsound.delivered cs
  · intro cs c ds hlast
    rw [((hfollows.after cs).call c).1] at hlast
    obtain ⟨hahead, hoffset⟩ := hsound.settled_after hlast ds
    have hafter := hfollows.after (cs ++ c :: ds)
    refine ⟨hafter.offset.symm.trans hoffset, ?_, ?_⟩
    · have hanswer := (hafter.call .nextToken).1
      simpa only [Lexer.call, Reader.call, hahead, Answer.token.injEq] using hanswer
    · have hanswer := (hafter.call .allTokens).1
      simpa only [Lexer.call, Reader.call, hahead, List.map_nil, Answer.tokens.injEq] using hanswer
  · intro cs ds hnext
    have hanswer := ((hfollows.after cs).call .next).1
    have hreader : ∀ t, ((after (Reader.call tr) (.start tr) cs).call tr .next).1 ≠
        .item (some (.ok t)) := by
      intro t ht
      rw [ht] at hanswer
      exact hnext t (Answer.item.inj hanswer)
    have hlast := ((hfollows.after (cs ++ .next :: ds)).call .next).1
    rw [(hsound.exhausted_after hreader ds).next] at hlast
    exact Answer.item.inj hlast

/-- In `1 ? 2` the second item is the failure, and whatever is asked then, no third item comes. -/
theorem no_item_behind_failure :
    "1 ? 2" ≠ "" ∧ ∃ l, Lexer.ofText "1 ? 2" = .ok l ∧
      ∀ ds, (after Lexer.call l (.next :: .next :: ds)).next?.1 = none := by
  have hne : "1 ? 2" ≠ "" := by decide
  obtain ⟨l, tr, hl, -, -, -, -, -, -, -, hended⟩ := calls_follow_one_track hne
  refine ⟨hne, l, hl, fun ds => hended [.next] ds ?_⟩
  obtain rfl : { cursor := .ofText "1 ? 2" } = l := Except.ok.inj ((ofText_eq_ok hne).symm.trans hl)
  have hsecond : (after Lexer.call { cursor := .ofText "1 ? 2" } [.next]).next?.1 =
      some (.error (.unexpectedChar '?' 2)) := by decide +kernel
  intro t ht
  simp [hsecond] at ht

end Abacus
