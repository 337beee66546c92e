import Abacus.Proofs.TrailingBlanks

/-! # Sessions line by line

A session reads its input line by line and forgets a line once it is answered. So what it writes about
lines that have come to their end does not depend on what follows, and what follows is answered as in a
new session, unless a line that is not UTF-8 has ended the session. A carriage return before a line feed
belongs to the end of the line, and further ones are blanks, so they do not show.
-/
namespace Abacus

/-! ## Text in bytes -/

theorem isValidUTF8_append_iff {a b : ByteArray} (hb : b.IsValidUTF8) :
    (a ++ b).IsValidUTF8 ↔ a.IsValidUTF8 := by
  refine ⟨fun h => ?_, fun h => h.append hb⟩
  let text : String := ⟨a ++ b, h⟩
  have hsize : text.utf8ByteSize = a.size + b.size := ByteArray.size_append
  have hplace : String.Pos.Raw.IsValid text ⟨a.size⟩ := by
    rw [String.Pos.Raw.isValid_iff_isValidUTF8_extract_utf8ByteSize]
    refine ⟨?_, ?_⟩
    · rw [String.Pos.Raw.le_iff, String.byteIdx_rawEndPos, hsize]
      exact Nat.le_add_right _ _
    · rwa [hsize, ByteArray.extract_append_eq_right rfl rfl]
  have hstart := hplace.isValidUTF8_extract_zero
  rwa [ByteArray.extract_append_eq_left rfl] at hstart

theorem fromUTF8?_append (a : ByteArray) (tail : String) :
    String.fromUTF8? (a ++ tail.toByteArray) = (String.fromUTF8? a).map (· ++ tail) := by
  unfold String.fromUTF8?
  by_cases ha : a.IsValidUTF8
  · rw [dif_pos ha, dif_pos (ha.append tail.isValidUTF8), Option.map_some, Option.some.injEq,
      ← String.toByteArray_inj, String.toByteArray_append]
    rfl
  · rw [dif_neg ha, dif_neg (mt (isValidUTF8_append_iff tail.isValidUTF8).mp ha), Option.map_none]

namespace Session

/-! ## Lines -/

/-- There is no line, or the last one has its end. -/
def Ended (input : List UInt8) : Prop := input = [] ∨ input.getLast? = some 10

def firstLine : List UInt8 → List UInt8 × List UInt8
  | [] => ([], [])
  | b :: input => if b = 10 then ([b], input) else (b :: (firstLine input).1, (firstLine input).2)

theorem lines_cons (b : UInt8) (input : List UInt8) : lines (b :: input) =
    if b = 10 then [b] :: lines input
    else match lines input with
      | [] => [[b]]
      | l :: ls => (b :: l) :: ls := rfl

theorem lines_eq_cons {input : List UInt8} (h : input ≠ []) :
    lines input = (firstLine input).1 :: lines (firstLine input).2 := by
  induction input with
  | nil => exact absurd rfl h
  | cons b input ih =>
    rw [lines_cons, firstLine]
    split
    · rfl
    · cases input with
      | nil => rfl
      | cons c input => rw [ih (List.cons_ne_nil c input)]

theorem length_firstLine_lt {input : List UInt8} (h : input ≠ []) :
    (firstLine input).2.length < input.length := by
  induction input with
  | nil => exact absurd rfl h
  | cons b input ih =>
    rw [firstLine]
    split
    · simp
    · cases input with
      | nil => simp [firstLine]
      | cons c input => exact (ih (List.cons_ne_nil c input)).trans (by simp)

theorem firstLine_of_feed {l : List UInt8} (h : 10 ∉ l) (rest : List UInt8) :
    firstLine (l ++ 10 :: rest) = (l ++ [10], rest) := by
  induction l with
  | nil => rfl
  | cons b l ih =>
    obtain ⟨hb, hl⟩ := not_or.mp (mt List.mem_cons.mpr h)
    rw [List.cons_append, firstLine, if_neg (Ne.symm hb), ih hl]
    rfl

theorem lines_of_feed {l : List UInt8} (h : 10 ∉ l) (rest : List UInt8) :
    lines (l ++ 10 :: rest) = (l ++ [10]) :: lines rest := by
  rw [lines_eq_cons (by simp), firstLine_of_feed h]

theorem Ended.tail {b : UInt8} {s : List UInt8} (h : Ended (b :: s)) : Ended s := by
  cases s with
  | nil => exact .inl rfl
  | cons c s => exact .inr (by simpa [Ended] using h)

theorem lines_append {s : List UInt8} (h : Ended s) (t : List UInt8) :
    lines (s ++ t) = lines s ++ lines t := by
  induction s with
  | nil => rfl
  | cons b s ih =>
    rw [List.cons_append, lines_cons, lines_cons, ih h.tail]
    split
    · rfl
    · rename_i hb
      cases s with
      | nil =>
        -- A single byte that ends a line is a line feed.
        simp [Ended, hb] at h
      | cons c s =>
        rw [lines_eq_cons (List.cons_ne_nil c s)]
        rfl

theorem exists_ended_append (u : List UInt8) : ∃ s l, u = s ++ l ∧ Ended s ∧ 10 ∉ l := by
  induction u with
  | nil => exact ⟨[], [], rfl, .inl rfl, by simp⟩
  | cons b u ih =>
    obtain ⟨s, l, rfl, hs, hl⟩ := ih
    by_cases hstart : s = [] ∧ b ≠ 10
    · obtain ⟨rfl, hb⟩ := hstart
      exact ⟨[], b :: l, rfl, .inl rfl, by simp [hl, Ne.symm hb]⟩
    · refine ⟨b :: s, l, rfl, .inr ?_, hl⟩
      cases s with
      | nil => simpa using hstart
      | cons c s => simpa [Ended] using hs

/-! ## The text of a line -/

/-- The line is the content with its end, which is a line feed, a carriage return and a line feed or, for
the last line of an input, nothing. -/
inductive IsLine : List UInt8 → List UInt8 → Prop where
  | feed {content : List UInt8} (h : content.getLast? ≠ some 13) : IsLine content (content ++ [10])
  | returnFeed (content : List UInt8) : IsLine content (content ++ [13, 10])
  | bare {content : List UInt8} (h : content.getLast? ≠ some 10) : IsLine content content

theorem lineText?_of_return (l : List UInt8) :
    lineText? (l ++ [13, 10]) = String.fromUTF8? l.toByteArray := by
  simp [lineText?]

theorem lineText?_of_feed {l : List UInt8} (h : l.getLast? ≠ some 13) :
    lineText? (l ++ [10]) = String.fromUTF8? l.toByteArray := by
  have hreverse : (l ++ [10]).reverse = 10 :: l.reverse := by simp
  rw [List.getLast?_eq_head?_reverse] at h
  unfold lineText?
  rw [hreverse]
  split
  · rename_i content hcontent
    rw [(List.cons.inj hcontent).2] at h
    exact absurd rfl h
  · rename_i content _ hcontent
    rw [← (List.cons.inj hcontent).2, List.reverse_reverse]
  · rename_i _ hend
    exact absurd rfl (hend l.reverse)

theorem lineText?_of_bare {l : List UInt8} (h : l.getLast? ≠ some 10) :
    lineText? l = String.fromUTF8? l.toByteArray := by
  rw [List.getLast?_eq_head?_reverse] at h
  unfold lineText?
  split
  · simp_all
  · simp_all
  · rfl

theorem exists_isLine (l : List UInt8) : ∃ content, IsLine content l := by
  by_cases hfeed : l.getLast? = some 10
  · obtain ⟨content, rfl⟩ := List.getLast?_eq_some_iff.mp hfeed
    by_cases hreturn : content.getLast? = some 13
    · obtain ⟨content, rfl⟩ := List.getLast?_eq_some_iff.mp hreturn
      rw [List.append_assoc]
      exact ⟨content, .returnFeed content⟩
    · exact ⟨content, .feed hreturn⟩
  · exact ⟨l, .bare hfeed⟩

section
variable {content l : List UInt8}

theorem IsLine.lineText? (h : IsLine content l) :
    lineText? l = String.fromUTF8? content.toByteArray := by
  cases h with
  | feed h => exact lineText?_of_feed h
  | returnFeed => exact lineText?_of_return content
  | bare h => exact lineText?_of_bare h

theorem IsLine.isValidUTF8_iff (h : IsLine content l) :
    l.toByteArray.IsValidUTF8 ↔ content.toByteArray.IsValidUTF8 := by
  cases h with
  | feed => rw [List.toByteArray_append, isValidUTF8_append_iff (by decide)]
  | returnFeed => rw [List.toByteArray_append, isValidUTF8_append_iff (by decide)]
  | bare => rfl

end

theorem isSome_lineText?_iff (l : List UInt8) :
    (lineText? l).isSome ↔ l.toByteArray.IsValidUTF8 := by
  obtain ⟨content, hline⟩ := exists_isLine l
  rw [hline.lineText?, hline.isValidUTF8_iff]
  unfold String.fromUTF8?
  split <;> simp_all

theorem lineText?_eq_none_iff {l : List UInt8} : lineText? l = none ↔ ¬ l.toByteArray.IsValidUTF8 := by
  rw [← isSome_lineText?_iff, Bool.not_eq_true, Option.isSome_eq_false_iff, Option.isNone_iff_eq_none]

/-- A carriage return more before the line feed does not show in the answer. -/
theorem map_answer_lineText? (l : List UInt8) :
    (lineText? (l ++ [13, 10])).map answer = (lineText? (l ++ [10])).map answer := by
  by_cases h : l.getLast? = some 13
  · obtain ⟨l, rfl⟩ := List.getLast?_eq_some_iff.mp h
    have hreturn : ([13] : List UInt8).toByteArray = "\r".toByteArray := by decide
    have hblank : ∀ c ∈ "\r".toList, Text.isBlank c = true := by
      intro c hc
      obtain rfl : c = '\r' := by simpa using hc
      decide
    rw [lineText?_of_return, List.append_assoc, List.singleton_append, lineText?_of_return,
      List.toByteArray_append, hreturn, fromUTF8?_append, Option.map_map]
    congr 1
    funext text
    exact answer_append_blanks text hblank
  · rw [lineText?_of_return, lineText?_of_feed h]

/-! ## What is written -/

/-- A prompt in green and behind it, unless the line is blank, the report on it. If this has failed there
is an error line too, with its mark in bold red. -/
def exchange (text : String) : String :=
  "\x1b[32m>\x1b[39m " ++
    if text.toList.all Text.isBlank then ""
    else (report text).output ++
      match (report text).failure with
      | none => ""
      | some err => "\x1b[1m\x1b[31merror:\x1b[39m\x1b[0m " ++ err.message ++ "\n"

def body (ls : List (List UInt8)) : String := String.join ((ls.filterMap lineText?).map exchange)

theorem exchange_eq (text : String) : exchange text = prompt ++ answer text := by
  unfold exchange answer
  split
  · rfl
  · dsimp only
    cases (report text).failure <;> rfl

/-- What a session writes whose input has these lines. -/
def written (ls : List (List UInt8)) : String :=
  String.join ((((ls.map lineText?).takeWhile Option.isSome).filterMap id).map
    fun t => prompt ++ answer t) ++ prompt ++ farewell

theorem transcript_eq_written (input : List UInt8) : transcript input = written (lines input) := rfl

theorem written_nil : written [] = "\x1b[32m>\x1b[39m \x1b[33mexiting...\x1b[39m\n" := by
  decide +kernel

section
variable {l l' : List UInt8} {ls ms : List (List UInt8)}

theorem written_cons_of_some {text : String} (h : lineText? l = some text) :
    written (l :: ls) = exchange text ++ written ls := by
  simp [written, h, exchange_eq, String.append_assoc]

theorem written_cons_of_none (h : lineText? l = none) : written (l :: ls) = written [] := by
  simp [written, h]

theorem written_append (h : ∀ l ∈ ls, l.toByteArray.IsValidUTF8) :
    written (ls ++ ms) = body ls ++ written ms := by
  induction ls with
  | nil => simp [body]
  | cons l ls ih =>
    obtain ⟨hl, hls⟩ := List.forall_mem_cons.mp h
    obtain ⟨text, htext⟩ := Option.isSome_iff_exists.mp ((isSome_lineText?_iff l).mpr hl)
    have hbody : body (l :: ls) = exchange text ++ body ls := by simp [body, htext]
    rw [List.cons_append, written_cons_of_some htext, ih hls, hbody, String.append_assoc]

theorem written_of_invalid (h : ∀ l ∈ ls, l.toByteArray.IsValidUTF8) (hl : ¬ l.toByteArray.IsValidUTF8) :
    written (ls ++ l :: ms) = body ls ++ written [] := by
  rw [written_append h, written_cons_of_none (lineText?_eq_none_iff.mpr hl)]

theorem written_replace (h : (lineText? l).map answer = (lineText? l').map answer) :
    written (ls ++ l :: ms) = written (ls ++ l' :: ms) := by
  induction ls with
  | nil =>
    cases hl : lineText? l with
    | none =>
      have hl' : lineText? l' = none := by simpa [hl, eq_comm] using h
      rw [List.nil_append, List.nil_append, written_cons_of_none hl, written_cons_of_none hl']
    | some text =>
      obtain ⟨text', hl', hsame⟩ : ∃ text', lineText? l' = some text' ∧ answer text' = answer text := by
        simpa [hl, eq_comm] using h
      rw [List.nil_append, List.nil_append, written_cons_of_some hl, written_cons_of_some hl',
        exchange_eq, exchange_eq, hsame]
  | cons k ls ih =>
    rw [List.cons_append, List.cons_append]
    cases hk : lineText? k with
    | none => rw [written_cons_of_none hk, written_cons_of_none hk]
    | some text => rw [written_cons_of_some hk, written_cons_of_some hk, ih]

theorem exists_first_invalid (h : ∃ l ∈ ls, ¬ l.toByteArray.IsValidUTF8) :
    ∃ before l after, ls = before ++ l :: after ∧ (∀ k ∈ before, k.toByteArray.IsValidUTF8) ∧
      ¬ l.toByteArray.IsValidUTF8 := by
  have hfind : (ls.find? fun l => ¬ l.toByteArray.IsValidUTF8).isSome := by
    simpa [List.find?_isSome] using h
  obtain ⟨l, hfound⟩ := Option.isSome_iff_exists.mp hfind
  obtain ⟨hl, before, after, rfl, hbefore⟩ := List.find?_eq_some_iff_append.mp hfound
  exact ⟨before, l, after, rfl, by simpa using hbefore, by simpa using hl⟩

end

theorem transcript_of_return (u v : List UInt8) :
    transcript (u ++ 13 :: 10 :: v) = transcript (u ++ 10 :: v) := by
  obtain ⟨s, l, rfl, hs, hl⟩ := exists_ended_append u
  have hfeed := lines_of_feed hl v
  have hreturn := lines_of_feed (l := l ++ [13]) (by simp [hl]) v
  simp only [List.append_assoc, List.singleton_append] at hreturn
  rw [transcript_eq_written, transcript_eq_written, List.append_assoc, List.append_assoc,
    lines_append hs, lines_append hs, hfeed, hreturn]
  exact written_replace (map_answer_lineText? l)

/-! ## The conversation -/

/-- A session prompts and reads a line, again and again: what it writes from here on, and its exit code.
It ends at the end of its input or at a line that is not UTF-8. Writes that fail are left out. -/
inductive Converses : List UInt8 → String → UInt32 → Prop where
  | ended : Converses [] "\x1b[32m>\x1b[39m \x1b[33mexiting...\x1b[39m\n" 0
  | unreadable {input : List UInt8} (hne : input ≠ [])
      (h : ¬ (firstLine input).1.toByteArray.IsValidUTF8) :
      Converses input "\x1b[32m>\x1b[39m \x1b[33mexiting...\x1b[39m\n" 0
  | line {input content : List UInt8} {text output : String} {code : UInt32} (hne : input ≠ [])
      (hline : IsLine content (firstLine input).1)
      (htext : String.fromUTF8? content.toByteArray = some text)
      (hr : Converses (firstLine input).2 output code) : Converses input (exchange text ++ output) code

theorem Converses.eq {input : List UInt8} {output : String} {code : UInt32}
    (h : Converses input output code) : output = transcript input ∧ code = exitCode ∧ code = 0 := by
  induction h with
  | ended => exact ⟨written_nil.symm, rfl, rfl⟩
  | unreadable hne hinvalid =>
    refine ⟨?_, rfl, rfl⟩
    rw [transcript_eq_written, lines_eq_cons hne,
      written_cons_of_none (lineText?_eq_none_iff.mpr hinvalid), written_nil]
  | line hne hline htext _ ih =>
    obtain ⟨rfl, hcode⟩ := ih
    refine ⟨?_, hcode⟩
    rw [transcript_eq_written, transcript_eq_written, lines_eq_cons hne,
      written_cons_of_some (hline.lineText?.trans htext)]

theorem exists_converses (input : List UInt8) : ∃ output code, Converses input output code := by
  -- By induction on the length of the input, of which every line takes some.
  induction hn : input.length using Nat.strong_induction_on generalizing input with
  | _ n ih =>
    subst hn
    by_cases hne : input = []
    · subst hne
      exact ⟨_, _, .ended⟩
    · cases htext : lineText? (firstLine input).1 with
      | none => exact ⟨_, _, .unreadable hne (lineText?_eq_none_iff.mp htext)⟩
      | some text =>
        obtain ⟨content, hline⟩ := exists_isLine (firstLine input).1
        obtain ⟨output, code, hrest⟩ := ih _ (length_firstLine_lt hne) _ rfl
        exact ⟨_, _, .line hne hline (hline.lineText?.symm.trans htext) hrest⟩

theorem converses_iff {input : List UInt8} {output : String} {code : UInt32} :
    Converses input output code ↔ output = transcript input ∧ code = exitCode ∧ code = 0 := by
  refine ⟨Converses.eq, ?_⟩
  rintro ⟨rfl, -, rfl⟩
  obtain ⟨output, code, h⟩ := exists_converses input
  obtain ⟨rfl, -, rfl⟩ := h.eq
  exact h

/-- What a session writes about ended lines stands before what it writes in a new session about the rest
of its input. At a line that is not UTF-8 it ends, whatever follows. Carriage returns before line feeds
do not show. Every session comes to an end, with exit code zero. -/
theorem sessions_go_line_by_line :
    transcript [] = "\x1b[32m>\x1b[39m \x1b[33mexiting...\x1b[39m\n" ∧
    (∀ s, Ended s → (∀ l ∈ lines s, l.toByteArray.IsValidUTF8) →
      transcript s = body (lines s) ++ transcript [] ∧
        ∀ t, transcript (s ++ t) = body (lines s) ++ transcript t) ∧
    (∀ s, Ended s → (∃ l ∈ lines s, ¬ l.toByteArray.IsValidUTF8) →
      ∃ before l after, lines s = before ++ l :: after ∧
        (∀ k ∈ before, k.toByteArray.IsValidUTF8) ∧ ¬ l.toByteArray.IsValidUTF8 ∧
        transcript s = body before ++ transcript [] ∧ ∀ t, transcript (s ++ t) = transcript s) ∧
    (∀ u v, transcript (u ++ 13 :: 10 :: v) = transcript (u ++ 10 :: v)) ∧
    ∀ input output code,
      Converses input output code ↔ output = transcript input ∧ code = exitCode ∧ code = 0 := by
  refine ⟨written_nil, ?_, ?_, transcript_of_return, fun input output code => converses_iff⟩
  · intro s hs hvalid
    have hrest : ∀ t, transcript (s ++ t) = body (lines s) ++ transcript t := by
      intro t
      rw [transcript_eq_written, transcript_eq_written, lines_append hs, written_append hvalid]
    refine ⟨?_, hrest⟩
    have hend := hrest []
    rwa [List.append_nil] at hend
  · intro s hs hinvalid
    obtain ⟨before, l, after, hlines, hbefore, hl⟩ := exists_first_invalid hinvalid
    have hrest : ∀ t, transcript (s ++ t) = body before ++ transcript [] := by
      intro t
      rw [transcript_eq_written, lines_append hs, hlines, List.append_assoc, List.cons_append,
        written_of_invalid hbefore hl]
      rfl
    have hend := hrest []
    rw [List.append_nil] at hend
    exact ⟨before, l, after, hlines, hbefore, hl, hend, fun t => (hrest t).trans hend.symm⟩

/-- A sum, a blank line and a failing line leave nothing behind, and nothing is read behind a byte that
no text has. -/
theorem failing_line_leaves_nothing :
    let s : List UInt8 := [49, 43, 49, 13, 10, 32, 10, 36, 10]
    let r : List UInt8 := [49, 10, 255, 10]
    (Ended s ∧ (∀ l ∈ lines s, l.toByteArray.IsValidUTF8) ∧
      ∀ t, transcript (s ++ t) =
        "\x1b[32m>\x1b[39m \x1b[36m  tokens\x1b[39m 1 + 1 \n" ++
        "\x1b[36m    tree\x1b[39m (1 + 1)\n" ++
        "\x1b[36m    sexp\x1b[39m (+ 1 1)\n" ++
        "\x1b[36m program\x1b[39m\n" ++
        "   0  push 1\n" ++
        "   1  push 1\n" ++
        "   2  binary +\n" ++
        "\x1b[36m  interp\x1b[39m \x1b[1m2\x1b[0m\n" ++
        "\x1b[36m      vm\x1b[39m \x1b[1m2\x1b[0m\n" ++
        "\x1b[32m>\x1b[39m " ++
        "\x1b[32m>\x1b[39m \x1b[36m  tokens\x1b[39m " ++
        "\x1b[1m\x1b[31merror:\x1b[39m\x1b[0m unexpected character '$' at offset 0\n" ++ transcript t) ∧
    Ended r ∧ (∃ l ∈ lines r, ¬ l.toByteArray.IsValidUTF8) ∧
      ∀ t, transcript (r ++ t) =
        "\x1b[32m>\x1b[39m \x1b[36m  tokens\x1b[39m 1 \n" ++
        "\x1b[36m    tree\x1b[39m 1\n" ++
        "\x1b[36m    sexp\x1b[39m 1\n" ++
        "\x1b[36m program\x1b[39m\n" ++
        "   0  push 1\n" ++
        "\x1b[36m  interp\x1b[39m \x1b[1m1\x1b[0m\n" ++
        "\x1b[36m      vm\x1b[39m \x1b[1m1\x1b[0m\n" ++
        "\x1b[32m>\x1b[39m \x1b[33mexiting...\x1b[39m\n" := by
  intro s r
  obtain ⟨-, hvalid, hinvalid, -, -⟩ := sessions_go_line_by_line
  constructor
  · have hs : Ended s := .inr rfl
    have hlines : ∀ l ∈ lines s, l.toByteArray.IsValidUTF8 := by decide +kernel
    refine ⟨hs, hlines, fun t => ?_⟩
    rw [(hvalid s hs hlines).2 t]
    congr 1
    decide +kernel
  · have hr : Ended r := .inr rfl
    have hline : ∃ l ∈ lines r, ¬ l.toByteArray.IsValidUTF8 := by decide +kernel
    obtain ⟨before, l, after, -, -, -, -, hrest⟩ := hinvalid r hr hline
    refine ⟨hr, hline, fun t => ?_⟩
    rw [hrest t]
    decide +kernel

end Session

end Abacus
