import Abacus.Proofs.ParserCompleteness

/-! # The limits

A limit stops the reader or does nothing: whatever is read without meeting a limit is read the same way
under all looser limits, and under none. Together with what is known of the greedy grammar this makes
the limits exact. A sentence is refused only when more is open at once, or its tree is higher, than
the limit that is reported.
-/
namespace Abacus.Parser

/-- What the first limits allow the second allow too. -/
structure Looser (lim lim' : Limits) : Prop where
  nesting {n : Nat} : Within lim.nesting n → Within lim'.nesting n
  height {n : Nat} : Within lim.height n → Within lim'.height n

theorem looser_unlimited (lim : Limits) : Looser lim .unlimited := ⟨nofun, nofun⟩

/-- The result of a reading that no limit has stopped. -/
def Free {α : Type} (r : Except SyntaxError α) : Prop := ∀ limit, r ≠ .error (.tooDeep limit)

theorem Looser.signed {lim lim' : Limits} (hl : Looser lim lim') {t : Tree} {σ : Sign}
    (h : Free (t.signed lim σ)) : t.signed lim' σ = t.signed lim σ := by
  cases hsigned : t.signed lim σ with
  | error e =>
    obtain ⟨most, -, -, rfl⟩ := Tree.signed_eq_error.mp hsigned
    exact absurd hsigned (h most)
  | ok u =>
    obtain ⟨hu, hheight⟩ := Tree.signed_eq_ok.mp hsigned
    exact Tree.signed_eq_ok.mpr ⟨hu, hl.height hheight⟩

theorem Reads.loosen {lim lim' : Limits} (hl : Looser lim lim') {k : Task} {s : State}
    {o : Outcome Tree} (h : Reads lim k s o) (hfree : Free o.1) : Reads lim' k s o := by
  induction h with
  | missing ho => exact .missing ho
  | unreadable ho hs => exact .unreadable ho hs
  | number ho hs => exact .number ho hs
  | inside ho hn hs _ ih => exact .inside ho hn hs (ih hfree)
  | unclosed ho hs _ hx ih => exact .unclosed ho hs (ih nofun) hx
  | group ho hs _ hx ih => exact .group ho hs (ih nofun) hx
  | sign ho hs _ ih =>
    rw [← hl.signed hfree]
    exact .sign ho hs (ih nofun)
  | tooDeep hr =>
    obtain ⟨most, -, -, rfl⟩ := room_eq_error.mp hr
    exact absurd rfl (hfree most)
  | nested hr _ ih => exact .nested (room_eq_ok.mpr (hl.nesting (room_eq_ok.mp hr))) (ih hfree)
  | first _ ih => exact .first (ih hfree)
  | chain _ _ ih ihc => exact .chain (ih nofun) (ihc hfree)
  | product _ ih => exact .product (ih hfree)
  | factor _ ih => exact .factor (ih hfree)
  | stop ho => exact .stop ho
  | halt ho hs => exact .halt ho hs
  | right ho hs _ ih => exact .right ho hs (ih hfree)
  | tooHigh _ _ _ hb =>
    obtain ⟨most, -, -, rfl⟩ := Tree.binary_eq_error.mp hb
    exact absurd rfl (hfree most)
  | extend ho hs _ hb _ ih ihc =>
    obtain ⟨hu, hheight⟩ := Tree.binary_eq_ok.mp hb
    exact .extend ho hs (ih nofun) (Tree.binary_eq_ok.mpr ⟨hu, hl.height hheight⟩) (ihc hfree)

theorem parse_eq_of_looser {lim lim' : Limits} (hl : Looser lim lim') {c : Cursor}
    (hfree : Free (parse lim c)) : parse lim' c = parse lim c := by
  rcases parse_start c with ⟨x, -, -, hparse⟩ | ⟨s, -, -, -, hparse⟩
  · rw [hparse lim, hparse lim']
  · obtain ⟨o, hreads⟩ := exists_reads lim (.chain .sum) s
    rw [hparse lim o hreads] at hfree ⊢
    refine hparse lim' o (hreads.loosen hl ?_)
    rcases o with ⟨x | t, s'⟩
    · intro limit h
      cases h
      exact hfree limit rfl
    · exact nofun

end Abacus.Parser

namespace Abacus

theorem parseWithin_eq_of_looser {lim lim' : Parser.Limits} (hl : Parser.Looser lim lim')
    {text : String} (hfree : ∀ limit, parseWithin lim text ≠ .error (.grammatical (.tooDeep limit))) :
    parseWithin lim' text = parseWithin lim text := by
  by_cases hne : text = ""
  · subst hne
    rw [parseWithin_empty, parseWithin_empty]
  · have hparse : Parser.Free (Parser.parse lim (.ofText text)) :=
      fun limit h => hfree limit (parseWithin_eq_grammatical.mpr ⟨hne, h⟩)
    rw [parseWithin_of_ne hne, parseWithin_of_ne hne, Parser.parse_eq_of_looser hl hparse]

theorem fits_of_parseWithin {lim : Parser.Limits} (hleaf : Parser.Within lim.height 1) {text : String}
    {e : Expr} (h : parseWithin lim text = .ok e) :
    ∃ ts, tokenize text = .ok ts ∧ Spells .greedy ts e ∧ Parser.Fits lim (load ts) e := by
  obtain ⟨ts, htokens, hspells⟩ := spells_of_parseWithin h
  refine ⟨ts, htokens, hspells, ?_⟩
  rcases parseWithin_of_spells htokens hleaf hspells with ⟨-, hfits⟩ | ⟨limit, hdeep, -⟩
  · exact hfits
  · simp [h] at hdeep

theorem fits_standard {n : Nat} {e : Expr} :
    Parser.Fits .standard n e ↔ n ≤ 256 ∧ e.height ≤ 4096 := by
  simp [Parser.Fits, Parser.Within, Parser.Limits.standard, Parser.Limits.maxNesting,
    Parser.Limits.maxHeight]

theorem exceeds_standard {n limit : Nat} {e : Expr} :
    Parser.Exceeds .standard n e limit ↔
      (limit = 256 ∧ 256 < n) ∨ (limit = 4096 ∧ 4096 < e.height) := by
  simp only [Parser.Exceeds, Parser.Limits.standard, Parser.Limits.maxNesting,
    Parser.Limits.maxHeight, Option.some.injEq]
  constructor
  · rintro (⟨rfl, h⟩ | ⟨rfl, h⟩)
    · exact .inl ⟨rfl, h⟩
    · exact .inr ⟨rfl, h⟩
  · rintro (⟨rfl, h⟩ | ⟨rfl, h⟩)
    · exact .inl ⟨rfl, h⟩
    · exact .inr ⟨rfl, h⟩

theorem signDepth_le_load {ts : List Token} {e : Expr} (h : Spells .greedy ts e) :
    e.signDepth ≤ load ts := by
  obtain ⟨o, hderives⟩ := h
  have hpeak := hderives.signDepth_le_peak []
  rw [List.length_nil, Nat.zero_add] at hpeak
  exact hpeak

/-- What is read keeps both limits. A sentence is read when its tokens and the tree found without limits
keep them, and otherwise one that is exceeded is reported. Where no limit is reported there might be none. -/
theorem limits_are_exact :
    (∀ text e, parse text = .ok e → ∃ ts, tokenize text = .ok ts ∧
      e.height ≤ 4096 ∧ load ts ≤ 256 ∧ e.signDepth ≤ 256) ∧
    (∀ text ts, tokenize text = .ok ts → (∃ e, Spells .documented ts e) →
      ∃ e, Spells .greedy ts e ∧ parseWithin .unlimited text = .ok e ∧
        (load ts ≤ 256 ∧ e.height ≤ 4096 → parse text = .ok e) ∧
        (¬ (load ts ≤ 256 ∧ e.height ≤ 4096) →
          ∃ limit, parse text = .error (.grammatical (.tooDeep limit)) ∧
            ((limit = 256 ∧ 256 < load ts) ∨ (limit = 4096 ∧ 4096 < e.height)))) ∧
    (∀ text, (∀ limit, parse text ≠ .error (.grammatical (.tooDeep limit))) →
      parse text = parseWithin .unlimited text) := by
  simp only [parse_eq_parseWithin]
  refine ⟨?_, ?_, ?_⟩
  · intro text e he
    obtain ⟨ts, htokens, hspells, hfits⟩ := fits_of_parseWithin within_standard_leaf he
    obtain ⟨hload, hheight⟩ := fits_standard.mp hfits
    exact ⟨ts, htokens, hheight, hload, (signDepth_le_load hspells).trans hload⟩
  · rintro text ts htokens ⟨e', he'⟩
    obtain ⟨e, hspells⟩ := spells_greedy_of_documented htokens he'
    refine ⟨e, hspells, (parseWithin_unlimited_eq_ok htokens).mpr hspells, ?_⟩
    rcases parseWithin_of_spells htokens within_standard_leaf hspells with
      ⟨hok, hfits⟩ | ⟨limit, hdeep, hexceeds⟩
    · exact ⟨fun _ => hok, fun hnot => absurd (fits_standard.mp hfits) hnot⟩
    · refine ⟨fun hfits => ?_, fun _ => ⟨limit, hdeep, exceeds_standard.mp hexceeds⟩⟩
      exact absurd hexceeds ((fits_standard.mpr hfits).not_exceeds limit)
  · intro text hfree
    exact (parseWithin_eq_of_looser (Parser.looser_unlimited .standard) hfree).symm

/-! ## Signs before a number -/

/-- A one with so many minus signs before it. -/
def signedOne (n : Nat) : List Token := List.replicate n (.mark .minus) ++ [.number (.int 1)]

def signedOneText (n : Nat) : String := String.ofList (List.replicate n '-' ++ ['1'])

def signedOneTree : Nat → Expr
  | 0 => .literal (.int 1)
  | n + 1 => .signed .minus (signedOneTree n)

theorem height_signedOneTree (n : Nat) : (signedOneTree n).height = n + 1 := by
  induction n with
  | zero => rfl
  | succ n ih => rw [signedOneTree, Expr.height, ih]

theorem stream_signedOne (n offset : Nat) :
    (Cursor.stream ⟨offset, List.replicate n '-' ++ ['1']⟩).tokens = signedOne n ∧
      (Cursor.stream ⟨offset, List.replicate n '-' ++ ['1']⟩).failure = none := by
  induction n generalizing offset with
  | zero =>
    have hone : Cursor.next ⟨offset, ['1']⟩ = (.ok (.number (.int 1)), ⟨offset + 1, []⟩) := rfl
    have hend : Cursor.next ⟨offset + 1, []⟩ = (.ok .endOfInput, ⟨offset + 1, []⟩) := rfl
    have hstream := Cursor.stream_of_token hone rfl
    rw [Cursor.stream_of_end hend] at hstream
    rw [List.replicate_zero, List.nil_append, hstream]
    exact ⟨rfl, rfl⟩
  | succ n ih =>
    have hminus : Cursor.next ⟨offset, '-' :: (List.replicate n '-' ++ ['1'])⟩ =
        (.ok (.mark .minus), ⟨offset + 1, List.replicate n '-' ++ ['1']⟩) := rfl
    obtain ⟨htokens, hfailure⟩ := ih (offset + 1)
    rw [List.replicate_succ, List.cons_append, Cursor.stream_of_token hminus rfl]
    refine ⟨?_, hfailure⟩
    rw [htokens, signedOne, signedOne, List.replicate_succ, List.cons_append]

theorem tokenize_signedOneText (n : Nat) : tokenize (signedOneText n) = .ok (signedOne n) := by
  obtain ⟨htokens, hfailure⟩ := stream_signedOne n 0
  have hcursor : Cursor.ofText (signedOneText n) = ⟨0, List.replicate n '-' ++ ['1']⟩ := by
    rw [Cursor.ofText, signedOneText, String.toList_ofList]
  refine tokenize_eq_ok_iff.mpr ⟨?_, hcursor ▸ htokens, hcursor ▸ hfailure⟩
  intro hempty
  have hlist := congrArg String.toList hempty
  simp [signedOneText] at hlist

theorem spells_signedOne (g : Reading) (n : Nat) : Spells g (signedOne n) (signedOneTree n) := by
  induction n with
  | zero => exact ⟨false, .single (.single (.number _))⟩
  | succ n ih =>
    obtain ⟨o, hderives⟩ := ih
    exact ⟨true, .single (.single (.sign .minus hderives))⟩

theorem load_signedOne (n : Nat) : load (signedOne n) = n := by
  have hpeak : ∀ K, Nest.peak ⟨.operand, K⟩ (signedOne n) = n + K.length := by
    induction n with
    | zero => exact fun K => (peak_number _ K).trans (Nat.zero_add _).symm
    | succ n ih =>
      intro K
      have hsign := (peak_sign .minus (signedOne n) K).trans (ih (.sign :: K))
      rw [List.length_cons] at hsign
      exact hsign.trans (by omega)
  exact hpeak []

/-- The last text that is read and the first that is refused. -/
theorem nesting_limit_at_boundary :
    parse (signedOneText 256) = .ok (signedOneTree 256) ∧
      parse (signedOneText 257) = .error (.grammatical (.tooDeep 256)) := by
  have hexact := fun n => limits_are_exact.2.1 _ _ (tokenize_signedOneText n)
    ⟨_, spells_signedOne .documented n⟩
  have htree : ∀ n e, Spells .greedy (signedOne n) e → e = signedOneTree n :=
    fun n e he => spells_unique (tokenize_signedOneText n) (spells_signedOne .greedy n) he
  constructor
  · obtain ⟨e, hspells, -, hok, -⟩ := hexact 256
    obtain rfl := htree 256 e hspells
    exact hok ⟨by rw [load_signedOne], by rw [height_signedOneTree]; decide⟩
  · obtain ⟨e, hspells, -, -, hdeep⟩ := hexact 257
    obtain rfl := htree 257 e hspells
    rw [load_signedOne, height_signedOneTree] at hdeep
    obtain ⟨limit, hparse, ⟨rfl, -⟩ | ⟨-, hheight⟩⟩ := hdeep (by omega)
    · exact hparse
    · omega

end Abacus
