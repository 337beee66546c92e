import Abacus.Proofs.LexerSpelling
import Abacus.Proofs.ListingText
import Abacus.Sexp

/-! # Three faithful views of a tree

The infix text, the S-expression and the listing of a tree tell the same about it: its shape, its signs
and operators, and the texts of its literals. Of these only one thing is needed, that each is a word,
which is not empty and has no space, line feed or parenthesis. So the views are taken here with any words
for the literals. In the first two a word ends where a space or a parenthesis comes, and what a view of a
subtree takes of a longer text is known from the text; a listing is cut into its lines, and the code
builds its tree.
-/
namespace Abacus

/-! ## Words -/

def Text.isWordChar (c : Char) : Bool := c != ' ' && c != '\n' && c != '(' && c != ')'

def IsWord (w : List Char) : Prop := w ≠ [] ∧ ∀ c ∈ w, Text.isWordChar c = true

theorem IsWord.cons {w : List Char} (h : IsWord w) {c : Char} (hc : Text.isWordChar c = true) :
    IsWord (c :: w) := ⟨nofun, List.forall_mem_cons.mpr ⟨hc, h.2⟩⟩

theorem isWord_singleton {c : Char} (hc : Text.isWordChar c = true) : IsWord [c] :=
  ⟨nofun, List.forall_mem_singleton.mpr hc⟩

theorem IsWord.append_ne {w rest rest' : List Char} (h : IsWord w) : w ++ rest ≠ '(' :: rest' := by
  obtain ⟨hne, hall⟩ := h
  cases w with
  | nil => exact absurd rfl hne
  | cons c w =>
    intro heq
    have hc := hall c List.mem_cons_self
    rw [(List.cons.inj heq).1] at hc
    cases hc

theorem IsWord.newline_not_mem {w : List Char} (h : IsWord w) : '\n' ∉ w := by
  intro hmem
  cases h.2 _ hmem

/-- A word ends at a space or a parenthesis. -/
def Ends (rest : List Char) : Prop := Bars Text.isWordChar rest

theorem ends_nil : Ends [] := bars_nil _

theorem ends_space (rest : List Char) : Ends (' ' :: rest) := bars_cons.mpr rfl

theorem ends_close (rest : List Char) : Ends (')' :: rest) := bars_cons.mpr rfl

theorem ends_open (rest : List Char) : Ends ('(' :: rest) := bars_cons.mpr rfl

theorem IsWord.eq_of_append {w w' rest rest' : List Char} (hw : IsWord w) (hw' : IsWord w')
    (h : w ++ rest = w' ++ rest') (hrest : Ends rest) (hrest' : Ends rest') :
    w = w' ∧ rest = rest' := eq_of_bars h hw.2 hrest hw'.2 hrest'

theorem Sign.isWordChar_symbol (s : Sign) : Text.isWordChar s.symbol = true := by
  cases s <;> rfl

theorem Sign.symbol_injective {s t : Sign} (h : s.symbol = t.symbol) : s = t := by
  revert h
  cases s <;> cases t <;> decide

theorem Operator.symbol_injective {o p : Operator} (h : o.symbol = p.symbol) : o = p := by
  revert h
  cases o <;> cases p <;> decide

namespace Expr

/-! ## Views with given words for the literals -/

def grouped (word : Number → String) : Expr → List Char
  | literal n => (word n).toList
  | signed s e => '(' :: s.symbol :: (e.grouped word ++ [')'])
  | binary op l r => '(' :: (l.grouped word ++ ' ' :: op.symbol :: ' ' :: (r.grouped word ++ [')']))

def listed (word : Number → String) : Expr → List Char
  | literal n => (word n).toList
  | signed s e => '(' :: s.symbol :: ' ' :: (e.listed word ++ [')'])
  | binary op l r => '(' :: op.symbol :: ' ' :: (l.listed word ++ ' ' :: (r.listed word ++ [')']))

/-- The same shape with the same signs and operators, and the same words for the literals. -/
inductive Alike (word : Number → String) : Expr → Expr → Prop where
  | literal {m n : Number} (h : word m = word n) : Alike word (.literal m) (.literal n)
  | signed (s : Sign) {a b : Expr} (h : Alike word a b) : Alike word (.signed s a) (.signed s b)
  | binary (op : Operator) {a b c d : Expr} (hl : Alike word a c) (hr : Alike word b d) :
      Alike word (.binary op a b) (.binary op c d)

theorem grouped_text (e : Expr) : e.text.toList = e.grouped Number.text := by
  induction e with
  | literal n => rfl
  | signed s e ih => simp [text, grouped, ih]
  | binary op l r ihl ihr => simp [text, grouped, ihl, ihr]

theorem listed_text (e : Expr) : (Sexp.ofExpr e).text.toList = e.listed Number.text := by
  induction e with
  | literal n => simp [Sexp.ofExpr, Sexp.text, listed]
  | signed s e ih => simp [Sexp.ofExpr, Sexp.text, Sexp.texts, listed, ih]
  | binary op l r ihl ihr => simp [Sexp.ofExpr, Sexp.text, Sexp.texts, listed, ihl, ihr]

section
variable {word : Number → String} {a b : Expr}

theorem Alike.grouped_eq (h : a.Alike word b) : a.grouped word = b.grouped word := by
  induction h with
  | literal h => exact congrArg String.toList h
  | signed s _ ih => rw [grouped, grouped, ih]
  | binary op _ _ ihl ihr => rw [grouped, grouped, ihl, ihr]

theorem Alike.listed_eq (h : a.Alike word b) : a.listed word = b.listed word := by
  induction h with
  | literal h => exact congrArg String.toList h
  | signed s _ ih => rw [listed, listed, ih]
  | binary op _ _ ihl ihr => rw [listed, listed, ihl, ihr]

variable (hword : ∀ n, IsWord (word n).toList)
include hword

theorem alike_literal_of_append {m n : Number} {rest rest' : List Char}
    (h : (word m).toList ++ rest = (word n).toList ++ rest') (hrest : Ends rest) (hrest' : Ends rest') :
    Alike word (literal m) (literal n) ∧ rest = rest' := by
  obtain ⟨hwords, hrests⟩ := (hword m).eq_of_append (hword n) h hrest hrest'
  exact ⟨.literal (String.toList_inj.mp hwords), hrests⟩

/-- A sign before its operand is not the left operand of an operator, although both may begin with a
minus: what comes behind the word that begins there is a parenthesis in the one and a space in the other. -/
theorem grouped_sign_ne_left (s : Sign) (a l : Expr) (rest rest' : List Char) :
    s.symbol :: (a.grouped word ++ ')' :: rest) ≠ l.grouped word ++ ' ' :: rest' := by
  have hopen : s.symbol ≠ '(' := by cases s <;> decide
  intro h
  cases l with
  | signed => exact hopen (List.cons.inj h).1
  | binary => exact hopen (List.cons.inj h).1
  | literal n =>
    cases a with
    | literal m =>
      have hsign := (hword m).cons s.isWordChar_symbol
      obtain ⟨-, hrests⟩ := hsign.eq_of_append (hword n) h (ends_close _) (ends_space _)
      cases hrests
    | _ =>
      have hsign := isWord_singleton s.isWordChar_symbol
      obtain ⟨-, hrests⟩ := hsign.eq_of_append (hword n) h (ends_open _) (ends_space _)
      cases hrests

theorem alike_of_grouped_append {rest rest' : List Char}
    (h : a.grouped word ++ rest = b.grouped word ++ rest') (hrest : Ends rest) (hrest' : Ends rest') :
    Alike word a b ∧ rest = rest' := by
  induction a generalizing b rest rest' with
  | literal m =>
    cases b with
    | literal n => exact alike_literal_of_append hword h hrest hrest'
    | _ => exact absurd h (hword m).append_ne
  | signed s a ih =>
    cases b with
    | literal n => exact absurd h.symm (hword n).append_ne
    | signed t b =>
      simp only [grouped, List.cons_append, List.append_assoc, List.cons.injEq, true_and] at h
      obtain ⟨hsymbol, hin⟩ := h
      obtain rfl := Sign.symbol_injective hsymbol
      obtain ⟨halike, hrests⟩ := ih hin (ends_close _) (ends_close _)
      exact ⟨.signed s halike, (List.cons.inj hrests).2⟩
    | binary op l r =>
      simp only [grouped, List.cons_append, List.append_assoc, List.cons.injEq, true_and] at h
      exact absurd h (grouped_sign_ne_left hword s a l _ _)
  | binary op l r ihl ihr =>
    cases b with
    | literal n => exact absurd h.symm (hword n).append_ne
    | signed t b =>
      simp only [grouped, List.cons_append, List.append_assoc, List.cons.injEq, true_and] at h
      exact absurd h.symm (grouped_sign_ne_left hword t b l _ _)
    | binary op' l' r' =>
      simp only [grouped, List.cons_append, List.append_assoc, List.cons.injEq, true_and] at h
      obtain ⟨hleft, hbehind⟩ := ihl h (ends_space _) (ends_space _)
      simp only [List.cons.injEq, true_and] at hbehind
      obtain ⟨hsymbol, hin⟩ := hbehind
      obtain rfl := Operator.symbol_injective hsymbol
      obtain ⟨hright, hrests⟩ := ihr hin (ends_close _) (ends_close _)
      exact ⟨.binary op hleft hright, (List.cons.inj hrests).2⟩

theorem alike_of_listed_append {rest rest' : List Char}
    (h : a.listed word ++ rest = b.listed word ++ rest') (hrest : Ends rest) (hrest' : Ends rest') :
    Alike word a b ∧ rest = rest' := by
  induction a generalizing b rest rest' with
  | literal m =>
    cases b with
    | literal n => exact alike_literal_of_append hword h hrest hrest'
    | _ => exact absurd h (hword m).append_ne
  | signed s a ih =>
    cases b with
    | literal n => exact absurd h.symm (hword n).append_ne
    | signed t b =>
      simp only [listed, List.cons_append, List.append_assoc, List.cons.injEq, true_and] at h
      obtain ⟨hsymbol, hin⟩ := h
      obtain rfl := Sign.symbol_injective hsymbol
      obtain ⟨halike, hrests⟩ := ih hin (ends_close _) (ends_close _)
      exact ⟨.signed s halike, (List.cons.inj hrests).2⟩
    | binary op l r =>
      -- The one list ends behind its second item, the other goes on.
      simp only [listed, List.cons_append, List.append_assoc, List.cons.injEq, true_and] at h
      obtain ⟨-, hrests⟩ := ih h.2 (ends_close _) (ends_space _)
      cases hrests
  | binary op l r ihl ihr =>
    cases b with
    | literal n => exact absurd h.symm (hword n).append_ne
    | signed t b =>
      simp only [listed, List.cons_append, List.append_assoc, List.cons.injEq, true_and] at h
      obtain ⟨-, hrests⟩ := ihl h.2 (ends_space _) (ends_close _)
      cases hrests
    | binary op' l' r' =>
      simp only [listed, List.cons_append, List.append_assoc, List.cons.injEq, true_and] at h
      obtain ⟨hsymbol, hitems⟩ := h
      obtain rfl := Operator.symbol_injective hsymbol
      obtain ⟨hleft, hbehind⟩ := ihl hitems (ends_space _) (ends_space _)
      obtain ⟨hright, hrests⟩ := ihr (List.cons.inj hbehind).2 (ends_close _) (ends_close _)
      exact ⟨.binary op hleft hright, (List.cons.inj hrests).2⟩

theorem grouped_eq_iff : a.grouped word = b.grouped word ↔ a.Alike word b := by
  refine ⟨fun h => ?_, Alike.grouped_eq⟩
  exact (alike_of_grouped_append hword (congrArg (· ++ []) h) ends_nil ends_nil).1

theorem listed_eq_iff : a.listed word = b.listed word ↔ a.Alike word b := by
  refine ⟨fun h => ?_, Alike.listed_eq⟩
  exact (alike_of_listed_append hword (congrArg (· ++ []) h) ends_nil ends_nil).1

end

end Expr

/-! ## Listings -/

namespace Instruction

def spelled (word : Number → String) : Instruction → List Char
  | push n => ['p', 'u', 's', 'h', ' '] ++ (word n).toList
  | unary s => ['u', 'n', 'a', 'r', 'y', ' '] ++ [s.symbol]
  | binary op => ['b', 'i', 'n', 'a', 'r', 'y', ' '] ++ [op.symbol]

/-- The same instruction, or two that push the same word. -/
inductive Alike (word : Number → String) : Instruction → Instruction → Prop where
  | push {m n : Number} (h : word m = word n) : Alike word (.push m) (.push n)
  | unary (s : Sign) : Alike word (.unary s) (.unary s)
  | binary (op : Operator) : Alike word (.binary op) (.binary op)

theorem spelled_text (i : Instruction) : i.text.toList = i.spelled Number.text := by
  cases i <;> simp [text, spelled]

variable {word : Number → String}

theorem spelled_eq_iff {i j : Instruction} : i.spelled word = j.spelled word ↔ i.Alike word j := by
  constructor
  · intro h
    cases i with
    | push m =>
      cases j with
      | push n => exact .push (String.toList_inj.mp (List.append_cancel_left h))
      | _ => cases h
    | unary s =>
      cases j with
      | unary t =>
        obtain rfl := Sign.symbol_injective (List.singleton_inj.mp (List.append_cancel_left h))
        exact .unary s
      | _ => cases h
    | binary op =>
      cases j with
      | binary op' =>
        obtain rfl := Operator.symbol_injective (List.singleton_inj.mp (List.append_cancel_left h))
        exact .binary op
      | _ => cases h
  · rintro (h | s | op)
    · rw [spelled, spelled, h]
    · rfl
    · rfl

theorem newline_not_mem_spelled (hword : ∀ n, IsWord (word n).toList) (i : Instruction) :
    '\n' ∉ i.spelled word := by
  cases i with
  | push n => simp [spelled, (hword n).newline_not_mem]
  | unary s => simp [spelled, Sign.symbol, s.mark.toChar_ne_newline.symm]
  | binary op => simp [spelled, Operator.symbol, op.mark.toChar_ne_newline.symm]

theorem Alike.build? {i j : Instruction} (h : i.Alike word j) {es fs : List Expr}
    (hes : List.Forall₂ (Expr.Alike word) es fs) :
    Option.Rel (List.Forall₂ (Expr.Alike word)) (i.build? es) (j.build? fs) := by
  cases h with
  | push h => exact .some (.cons (.literal h) hes)
  | unary s =>
    cases hes with
    | nil => exact .none
    | cons he hes => exact .some (.cons (.signed s he) hes)
  | binary op =>
    cases hes with
    | nil => exact .none
    | cons hr hes =>
      cases hes with
      | nil => exact .none
      | cons hl hes => exact .some (.cons (.binary op hl hr) hes)

end Instruction

namespace Program

/-- The lines of code whose first instruction has this index. -/
def coded (word : Number → String) : Nat → List Instruction → List Char
  | _, [] => []
  | k, i :: code => (Text.alignRight 4 (toString k)).toList ++ ' ' :: ' ' ::
      (i.spelled word ++ '\n' :: coded word (k + 1) code)

theorem coded_lines (code : List Instruction) (k : Nat) :
    (code.mapIdx fun j i =>
      Text.alignRight 4 (toString (j + k)) ++ "  " ++ i.text ++ "\n").flatMap String.toList =
        coded Number.text k code := by
  induction code generalizing k with
  | nil => rfl
  | cons i code ih =>
    have hshift : ∀ j, j + 1 + k = j + (k + 1) := fun j => by omega
    simp only [List.mapIdx_cons, List.flatMap_cons, hshift, ih]
    simp [coded, Instruction.spelled_text]

theorem coded_listing (p : Program) : p.listing.toList = coded Number.text 0 p.code :=
  String.toList_join.trans (coded_lines p.code 0)

section
variable {word : Number → String} {code code' : List Instruction}

theorem coded_eq_of_alike (h : List.Forall₂ (Instruction.Alike word) code code') (k : Nat) :
    coded word k code = coded word k code' := by
  induction h generalizing k with
  | nil => rfl
  | cons hi _ ih => rw [coded, coded, Instruction.spelled_eq_iff.mpr hi, ih]

/-- A listing is cut at its line feeds, and the index in front of a line does not depend on the code. -/
theorem alike_of_coded_eq (hword : ∀ n, IsWord (word n).toList) {k : Nat}
    (h : coded word k code = coded word k code') : List.Forall₂ (Instruction.Alike word) code code' := by
  induction code generalizing code' k with
  | nil =>
    cases code' with
    | nil => exact .nil
    | cons j code' => simp [coded] at h
  | cons i code ih =>
    cases code' with
    | nil => simp [coded] at h
    | cons j code' =>
      have hline : i.spelled word ++ '\n' :: coded word (k + 1) code =
          j.spelled word ++ '\n' :: coded word (k + 1) code' := by
        simpa [coded] using h
      have hrun : ∀ (x : Instruction), ∀ c ∈ x.spelled word, (c != '\n') = true := by
        intro x c hc
        rw [bne_iff_ne]
        rintro rfl
        exact x.newline_not_mem_spelled hword hc
      obtain ⟨hi, hrest⟩ := eq_of_bars hline (hrun i) (bars_cons.mpr rfl) (hrun j) (bars_cons.mpr rfl)
      exact .cons (Instruction.spelled_eq_iff.mp hi) (ih (List.cons.inj hrest).2)

theorem build?_alike (h : List.Forall₂ (Instruction.Alike word) code code') {es fs : List Expr}
    (hes : List.Forall₂ (Expr.Alike word) es fs) :
    Option.Rel (List.Forall₂ (Expr.Alike word)) (build? code es) (build? code' fs) := by
  induction h generalizing es fs with
  | nil => exact .some hes
  | @cons i j code code' hi _ ih =>
    have hstep := hi.build? hes
    rw [build?_cons, build?_cons]
    cases hes' : i.build? es with
    | none =>
      cases hfs' : j.build? fs with
      | none => exact .none
      | some fs' => simp [hes', hfs'] at hstep
    | some es' =>
      cases hfs' : j.build? fs with
      | none => simp [hes', hfs'] at hstep
      | some fs' =>
        rw [hes', hfs', Option.rel_some_some] at hstep
        exact ih hstep

end

end Program

theorem Expr.Alike.emit {word : Number → String} {a b : Expr} (h : a.Alike word b)
    {k k' : List Instruction} (hk : List.Forall₂ (Instruction.Alike word) k k') :
    List.Forall₂ (Instruction.Alike word) (a.emit k) (b.emit k') := by
  induction h generalizing k k' with
  | literal h => exact .cons (.push h) hk
  | signed s _ ih => exact ih (.cons (.unary s) hk)
  | binary op _ _ ihl ihr => exact ihl (ihr (.cons (.binary op) hk))

theorem Program.coded_eq_iff {word : Number → String} (hword : ∀ n, IsWord (word n).toList) {a b : Expr} :
    coded word 0 (ofExpr a).code = coded word 0 (ofExpr b).code ↔ a.Alike word b := by
  constructor
  · intro h
    have hbuild := build?_alike (alike_of_coded_eq hword h) .nil
    rw [build?_ofExpr, build?_ofExpr, Option.rel_some_some, List.forall₂_cons] at hbuild
    exact hbuild.1
  · intro h
    exact coded_eq_of_alike (h.emit .nil) 0

/-! ## The words of numbers -/

theorem NumberLike.isWord {text : List Char} (h : NumberLike text) (hne : text ≠ []) : IsWord text := by
  refine ⟨hne, fun c hc => ?_⟩
  have hchar := h c hc
  simp only [Text.isWordChar, Bool.and_eq_true, bne_iff_ne]
  refine ⟨⟨⟨?_, ?_⟩, ?_⟩, ?_⟩ <;> rintro rfl <;> cases hchar

theorem toString_int_ne_nil (i : Int) : (toString i).toList ≠ [] := by
  cases i with
  | ofNat n =>
    rw [show (toString (Int.ofNat n)).toList = Nat.toDigits 10 n from Nat.toList_repr]
    exact Nat.toDigits_ne_nil
  | negSucc n =>
    have htext : toString (Int.negSucc n) = "-" ++ toString (n + 1) := rfl
    simp [htext]

theorem Decimal.text_ne_nil (d : Decimal) : d.text.toList ≠ [] := by
  simp only [text, String.toList_ofList]
  split
  · unfold positional
    split
    · exact List.cons_ne_nil _ _
    · split <;> simp
  · simp [scientific]

theorem Double.text_ne_nil (x : Double) : x.text.toList ≠ [] := by
  cases x with
  | nan => decide
  | infinite negative => simp [text]
  | finite negative x =>
    rw [text, String.toList_append]
    refine List.append_ne_nil_of_right_ne_nil _ ?_
    split
    · decide
    · exact x.shortest.text_ne_nil

theorem Number.isWord_text (n : Number) : IsWord n.text.toList := by
  refine n.numberLike_text.isWord ?_
  cases n with
  | int i => exact toString_int_ne_nil i.toInt
  | float x => exact (Double.ofBits x.toBits).text_ne_nil

/-! ## All views -/

theorem views_eq_iff {word : Number → String} (hword : ∀ n, IsWord (word n).toList) (a b : Expr) :
    (a.grouped word = b.grouped word ↔ a.Alike word b) ∧
    (a.listed word = b.listed word ↔ a.Alike word b) ∧
    (Program.coded word 0 (Program.ofExpr a).code = Program.coded word 0 (Program.ofExpr b).code ↔
      a.Alike word b) :=
  ⟨Expr.grouped_eq_iff hword, Expr.listed_eq_iff hword, Program.coded_eq_iff hword⟩

/-- Two trees have the same infix text, the same S-expression and the same listing under one and the same
condition: they have the same shape, signs and operators, and literals with the same texts. The texts of
numbers are words, and nothing else is needed of them: with any words in their places the views are as
faithful. -/
theorem views_equally_faithful (a b : Expr) :
    ((a.text = b.text ↔ a.Alike Number.text b) ∧
      ((Sexp.ofExpr a).text = (Sexp.ofExpr b).text ↔ a.Alike Number.text b) ∧
      ((Program.ofExpr a).listing = (Program.ofExpr b).listing ↔ a.Alike Number.text b)) ∧
    (∀ n : Number, IsWord n.text.toList) ∧
    (a.text.toList = a.grouped Number.text ∧ (Sexp.ofExpr a).text.toList = a.listed Number.text ∧
      (Program.ofExpr a).listing.toList = Program.coded Number.text 0 (Program.ofExpr a).code) ∧
    ∀ word : Number → String, (∀ n, IsWord (word n).toList) →
      (a.grouped word = b.grouped word ↔ a.Alike word b) ∧
      (a.listed word = b.listed word ↔ a.Alike word b) ∧
      (Program.coded word 0 (Program.ofExpr a).code = Program.coded word 0 (Program.ofExpr b).code ↔
        a.Alike word b) := by
  refine ⟨?_, Number.isWord_text, ⟨a.grouped_text, a.listed_text, Program.coded_listing _⟩,
    fun word hword => views_eq_iff hword a b⟩
  have hviews := views_eq_iff Number.isWord_text a b
  rwa [← Expr.grouped_text, ← Expr.grouped_text, ← Expr.listed_text, ← Expr.listed_text,
    ← Program.coded_listing, ← Program.coded_listing, String.toList_inj, String.toList_inj,
    String.toList_inj] at hviews

/-- A negative literal and a sign before a literal begin with the same characters, and no view confuses
them, also where all literals have one word. -/
theorem negative_literal_is_no_sign :
    let a : Expr := .binary .sub (.literal (.int (-1))) (.literal (.int 2))
    let b : Expr := .binary .sub (.signed .minus (.literal (.int 1))) (.literal (.int 2))
    (a.text ≠ b.text ∧ (Sexp.ofExpr a).text ≠ (Sexp.ofExpr b).text ∧
      (Program.ofExpr a).listing ≠ (Program.ofExpr b).listing) ∧
    IsWord ['n'] ∧ a.grouped (fun _ => "n") ≠ b.grouped fun _ => "n" := by
  intro a b
  have hword : IsWord ['n'] := isWord_singleton rfl
  have hdiffer : ∀ word, ¬ a.Alike word b := by
    intro word h
    dsimp only [a, b] at h
    cases h with
    | binary op hl hr => cases hl
  obtain ⟨⟨htext, hsexp, hlisting⟩, -, -, hgeneral⟩ := views_equally_faithful a b
  obtain ⟨hgrouped, -⟩ := hgeneral (fun _ => "n") fun _ => hword
  exact ⟨⟨htext.not.mpr (hdiffer _), hsexp.not.mpr (hdiffer _), hlisting.not.mpr (hdiffer _)⟩, hword,
    hgrouped.not.mpr (hdiffer _)⟩

end Abacus
