import CommandWord.Proofs.Text.Lines
import CommandWord.Proofs.Text.Numeral
import CommandWord.Proofs.Text.Spelling
import CommandWord.Source.Scanner

/-!
Scanners and the texts that they read. A scanner reads a text as a value if it takes exactly this
text off the front of every input that goes on in a way that it allows for: a word, for one, must
not go on with another letter. What is read part by part is read as a whole.
-/

namespace CommandWord

namespace Scanner

variable {α β : Type} {last : List Char → Prop} {text others : List Char} {value : α} {result : β}

/-- Whatever comes next, as long as it allows for it, the scanner reads exactly this text. -/
def Reads (last : List Char → Prop) (scanner : Scanner α) (text : List Char) (value : α) : Prop :=
  ∀ rest, last rest → scanner.run (text ++ rest) = some (value, rest)

/-- The scanner refuses whatever begins with this text. -/
def Refuses (scanner : Scanner α) (text : List Char) : Prop :=
  ∀ rest, scanner.run (text ++ rest) = none

def Anything (_ : List Char) : Prop := True

/-- What comes next does not go on with a word. -/
def EndsWord (rest : List Char) : Prop := (rest.head?.all fun c => !isWordChar c) = true

theorem endsWord_ofList {c : Char} {chars rest : List Char} (hc : isWordChar c = false) :
    EndsWord ((String.ofList (c :: chars)).toList ++ rest) := by
  rw [String.toList_ofList, EndsWord, List.cons_append, List.head?_cons, Option.all_some, hc]
  rfl

theorem endsWord_mark {c : Char} {chars others rest : List Char} (hc : isWordChar c = false) :
    EndsWord ((String.ofList (c :: chars)).toList ++ others ++ rest) := by
  rw [List.append_assoc]
  exact endsWord_ofList hc

/-- What stands between two items, or in front of one. It ends a word. -/
def IsMark (between : String) : Prop :=
  ∃ c chars, between = String.ofList (c :: chars) ∧ isWordChar c = false

theorem isMark_ofList {c : Char} {chars : List Char} (hc : isWordChar c = false) :
    IsMark (String.ofList (c :: chars)) :=
  ⟨c, chars, rfl, hc⟩

theorem IsMark.ne_nil {between : String} (hmark : IsMark between) : between.toList ≠ [] := by
  obtain ⟨c, chars, rfl, -⟩ := hmark
  rw [String.toList_ofList]
  exact List.cons_ne_nil c chars

theorem IsMark.endsWord {between : String} (hmark : IsMark between) (rest : List Char) :
    EndsWord (between.toList ++ rest) := by
  obtain ⟨c, chars, rfl, hc⟩ := hmark
  exact endsWord_ofList hc

/-! ### Scanners in a row -/

theorem run_bind_of_refused {first : Scanner α} {second : α → Scanner β} {input : List Char}
    (hrefused : first.run input = none) : (first >>= second).run input = none := by
  rw [StateT.run_bind, hrefused]
  rfl

namespace Reads

theorem mono {next : List Char → Prop} {scanner : Scanner α}
    (hreads : Reads next scanner text value) (hlast : ∀ rest, last rest → next rest) :
    Reads last scanner text value :=
  fun rest hrest => hreads rest (hlast rest hrest)

theorem pure : Reads last (Pure.pure value) [] value :=
  fun _ _ => rfl

theorem of_guard {p : Prop} [Decidable p] (hp : p) :
    Reads last (if p then Pure.pure value else failure) [] value := by
  rw [if_pos hp]
  exact pure

theorem bind {next : List Char → Prop} {first : Scanner α} {second : α → Scanner β}
    (hfirst : Reads next first text value) (hnext : ∀ rest, last rest → next (others ++ rest))
    (hsecond : Reads last (second value) others result) :
    Reads last (first >>= second) (text ++ others) result := by
  intro rest hrest
  rw [List.append_assoc, StateT.run_bind, hfirst _ (hnext rest hrest)]
  exact hsecond rest hrest

/-- A scanner that stops by itself, and one behind it. -/
theorem andThen {first : Scanner α} {second : α → Scanner β}
    (hfirst : Reads Anything first text value) (hsecond : Reads last (second value) others result) :
    Reads last (first >>= second) (text ++ others) result :=
  hfirst.bind (fun _ _ => trivial) hsecond

/-- A scanner that takes nothing of what is there. -/
theorem absent {next : List Char → Prop} {first : Scanner α} {second : α → Scanner β}
    (hfirst : Reads next first [] value) (hnext : ∀ rest, last rest → next (others ++ rest))
    (hsecond : Reads last (second value) others result) :
    Reads last (first >>= second) others result :=
  hfirst.bind hnext hsecond

/-- A scanner, and then something that takes no more of the input. -/
theorem finish {first : Scanner α} {second : α → Scanner β}
    (hfirst : Reads last first text value) (hsecond : Reads last (second value) [] result) :
    Reads last (first >>= second) text result := by
  intro rest hrest
  rw [StateT.run_bind, hfirst rest hrest]
  exact hsecond rest hrest

theorem map {first : Scanner α} (f : α → β) (hfirst : Reads last first text value) :
    Reads last (first >>= fun value => Pure.pure (f value)) text (f value) :=
  hfirst.finish .pure

theorem orElse_left {first second : Scanner α} (hfirst : Reads last first text value) :
    Reads last (first <|> second) text value := by
  intro rest hrest
  change (first.run (text ++ rest) <|> second.run (text ++ rest)) = _
  rw [hfirst rest hrest]
  rfl

theorem orElse_of_refused {first second : Scanner α}
    (hrefused : ∀ rest, last rest → first.run (text ++ rest) = none)
    (hsecond : Reads last second text value) : Reads last (first <|> second) text value := by
  intro rest hrest
  change (first.run (text ++ rest) <|> second.run (text ++ rest)) = _
  rw [hrefused rest hrest]
  exact hsecond rest hrest

theorem orElse_right {first second : Scanner α} (hrefuses : Refuses first text)
    (hsecond : Reads last second text value) : Reads last (first <|> second) text value :=
  hsecond.orElse_of_refused fun rest _ => hrefuses rest

end Reads

namespace Refuses

theorem bind {first : Scanner α} {second : α → Scanner β} (hfirst : Refuses first text) :
    Refuses (first >>= second) text :=
  fun rest => run_bind_of_refused (hfirst rest)

theorem append {scanner : Scanner α} (hrefuses : Refuses scanner text) :
    Refuses scanner (text ++ others) := by
  intro rest
  rw [List.append_assoc]
  exact hrefuses _

/-- What a scanner reads, and then something that the next one refuses. -/
theorem behind {next : List Char → Prop} {first : Scanner α} {second : α → Scanner β}
    (hfirst : Reads next first text value) (hnext : ∀ rest, next (others ++ rest))
    (hsecond : Refuses (second value) others) : Refuses (first >>= second) (text ++ others) := by
  intro rest
  rw [List.append_assoc, StateT.run_bind, hfirst _ (hnext rest)]
  exact hsecond rest

theorem orElse {first second : Scanner α} (hfirst : Refuses first text)
    (hsecond : Refuses second text) : Refuses (first <|> second) text := by
  intro rest
  change (first.run (text ++ rest) <|> second.run (text ++ rest)) = _
  rw [hfirst rest, hsecond rest]
  rfl

end Refuses

/-! ### Fixed text -/

theorem behind_append (chars rest : List Char) : behind chars (chars ++ rest) = some rest := by
  induction chars with
  | nil => rfl
  | cons c chars ih => rw [List.cons_append, behind, if_pos rfl, ih]

theorem reads_mark (chars : List Char) : Reads last (mark chars) chars () := by
  intro rest _
  change (behind chars (chars ++ rest)).map _ = _
  rw [behind_append]
  rfl

theorem reads_literally (text : String) : Reads last (literally text) text.toList () :=
  reads_mark text.toList

/-- Two texts that differ at some place. -/
def clash : List Char → List Char → Bool
  | c :: chars, first :: others => c != first || clash chars others
  | _, _ => false

theorem clash_append {chars front : List Char} (hclash : clash chars front = true)
    (others : List Char) : clash chars (front ++ others) = true := by
  induction chars generalizing front with
  | nil => contradiction
  | cons c chars ih =>
    cases front with
    | nil => contradiction
    | cons first front =>
      rw [clash, Bool.or_eq_true] at hclash
      rw [List.cons_append, clash, Bool.or_eq_true]
      exact hclash.imp_right ih

theorem behind_of_clash {chars front : List Char} (hclash : clash chars front = true)
    (rest : List Char) : behind chars (front ++ rest) = none := by
  induction chars generalizing front with
  | nil => contradiction
  | cons c chars ih =>
    cases front with
    | nil => contradiction
    | cons first front =>
      rw [clash, Bool.or_eq_true, bne_iff_ne] at hclash
      rw [List.cons_append, behind]
      split
      next heq => exact ih (hclash.resolve_left fun hne => hne heq)
      next => rfl

theorem refuses_of_clash {chars front : List Char} (hclash : clash chars front = true) :
    Refuses (mark chars) front := by
  intro rest
  change (behind chars _).map _ = none
  rw [behind_of_clash hclash]
  rfl

/-- The characters of both texts are compared one by one. -/
theorem refuses_text {chars front : List Char} (hclash : clash chars front = true) :
    Refuses (literally (String.ofList chars)) (String.ofList front).toList := by
  change Refuses (mark (String.ofList chars).toList) _
  rw [String.toList_ofList, String.toList_ofList]
  exact refuses_of_clash hclash

theorem refuses_literally {chars front : List Char} (hclash : clash chars front = true) :
    Refuses (literally (String.ofList chars)) ((String.ofList front).toList ++ others) :=
  (refuses_text hclash).append

/-- Both texts open alike, and then they differ. -/
theorem refuses_literally_append (common chars : List Char) (hrest : Refuses (mark chars) others) :
    Refuses (literally (String.ofList (common ++ chars)))
      ((String.ofList common).toList ++ others) := by
  intro rest
  have hskip : ∀ input, behind (common ++ chars) (common ++ input) = behind chars input := by
    intro input
    induction common with
    | nil => rfl
    | cons c common ih => rw [List.cons_append, List.cons_append, behind, if_pos rfl, ih]
  have hbehind := hrest rest
  change (behind chars (others ++ rest)).map _ = none at hbehind
  change (behind (String.ofList (common ++ chars)).toList _).map _ = none
  rw [String.toList_ofList, String.toList_ofList, List.append_assoc, hskip]
  exact hbehind

theorem reads_lineBreak : Reads last lineBreak ['\n'] () :=
  reads_mark ['\n']

theorem reads_lines (texts : List String) :
    Reads last (lines texts) (Lines.unlines texts).toList () := by
  rw [Lines.toList_unlines]
  induction texts with
  | nil => exact .pure
  | cons line rest ih =>
    rw [List.flatMap_cons, List.append_assoc]
    exact (reads_literally line).andThen (reads_lineBreak.andThen ih)

theorem refuses_lines {chars front : List Char} {texts : List String}
    (hclash : clash chars front = true) :
    Refuses (lines (String.ofList chars :: texts)) ((String.ofList front).toList ++ others) :=
  (refuses_literally hclash).bind

/-- Lines that stand the same in every text, and what comes behind them. -/
theorem lines_andThen {texts rest : List String} {second : Unit → Scanner β}
    (hsecond : Reads last (second ()) (Lines.unlines rest).toList result) :
    Reads last (lines texts >>= second) (Lines.unlines (texts ++ rest)).toList result := by
  rw [Lines.toList_unlines_append]
  exact (reads_lines texts).andThen hsecond

/-! ### Words -/

theorem run_span {p : Char → Bool} (hall : ∀ c ∈ text, p c) {rest : List Char}
    (hrest : ∀ c ∈ rest.head?, p c = false) :
    (span p).run (text ++ rest) = some (text, rest) := by
  have htake : rest.takeWhile p = [] := by
    cases rest with
    | nil => rfl
    | cons c rest => exact List.takeWhile_cons_of_neg (by simp [hrest c rfl])
  have hdrop : rest.dropWhile p = rest := by
    cases rest with
    | nil => rfl
    | cons c rest => exact List.dropWhile_cons_of_neg (by simp [hrest c rfl])
  change some ((text ++ rest).takeWhile p, (text ++ rest).dropWhile p) = _
  rw [List.takeWhile_append_of_pos hall, List.dropWhile_append_of_pos hall, htake, hdrop,
    List.append_nil]

theorem reads_span {p : Char → Bool} (hall : ∀ c ∈ text, p c) :
    Reads (fun rest => ∀ c ∈ rest.head?, p c = false) (span p) text text :=
  fun _ hrest => run_span hall hrest

/-- Everything up to the next character of this kind. -/
theorem reads_until {c : Char} (hnot : c ∉ text) :
    Reads (fun rest => rest.head? = some c) (span (· != c)) text text := by
  refine (reads_span ?_).mono ?_
  · intro other hother
    have hne : other ≠ c := ne_of_mem_of_not_mem hother hnot
    simpa using hne
  · intro rest hrest other hother
    rw [hrest, Option.mem_some_iff] at hother
    simp [hother]

theorem head?_ofList (c : Char) (chars others rest : List Char) :
    ((String.ofList (c :: chars)).toList ++ others ++ rest).head? = some c := by
  rw [String.toList_ofList]
  rfl

/-- A line without a break in it, up to its end. -/
theorem reads_restOfLine (hline : '\n' ∉ text) : Reads last restOfLine (text ++ ['\n']) () :=
  (reads_until hline).bind (fun _ _ => rfl) reads_lineBreak

theorem reads_word (hnil : text ≠ []) (hall : ∀ c ∈ text, isWordChar c) :
    Reads EndsWord word text text := by
  have hspan : Reads EndsWord (span isWordChar) text text := by
    refine (reads_span hall).mono ?_
    intro rest hends c hc
    rw [EndsWord, hc] at hends
    simpa using hends
  refine hspan.finish ?_
  rw [if_neg hnil]
  exact .pure

theorem reads_name {name : String} (hnil : name ≠ "") (hall : ∀ c ∈ name.toList, isWordChar c) :
    Reads EndsWord Scanner.name name.toList name := by
  have hword := reads_word (by simpa using hnil) hall
  exact hword.finish (by rw [String.ofList_toList]; exact .pure)

theorem exists_first_of_isIdentifier {name : String} (hname : IsIdentifier name) :
    ∃ first more, name.toList = first :: more ∧ isWordChar first ∧ ∀ c ∈ more, isWordChar c := by
  obtain ⟨first, more, hchars, hfirst, hmore⟩ := isSpelled_iff.mp hname
  refine ⟨first, more, hchars, ?_, hmore⟩
  rw [Bool.or_eq_true] at hfirst
  rw [isWordChar, Bool.or_eq_true]
  exact hfirst.imp_left fun halpha => isAlphanum_iff.mpr (Or.inl halpha)

theorem reads_identifier {name : String} (hname : IsIdentifier name) :
    Reads EndsWord Scanner.name name.toList name := by
  obtain ⟨first, more, hchars, hfirst, hmore⟩ := exists_first_of_isIdentifier hname
  refine reads_name ?_ ?_
  · intro hempty
    rw [hempty] at hchars
    contradiction
  · rw [hchars]
    exact List.forall_mem_cons.mpr ⟨hfirst, hmore⟩

/-! ### Numbers -/

open Digits

theorem digit?_eq_some {base number : Nat} {c : Char} (hbase : base ≤ 16)
    (hdigit : IsDigit base c number) : digit? base c = some number := by
  unfold digit?
  cases hfound : (List.range base).find? fun value => c.toLower == value.digitChar with
  | none =>
    have hnone := List.find?_eq_none.mp hfound number (List.mem_range.mpr hdigit.1)
    exact absurd (beq_iff_eq.mpr hdigit.2) hnone
  | some other =>
    have hchar := List.find?_some hfound
    have hother : IsDigit base c other :=
      ⟨List.mem_range.mp (List.mem_of_find?_eq_some hfound), beq_iff_eq.mp hchar⟩
    rw [hother.unique hbase hdigit]

theorem mapM_digit? {base : Nat} {digits : List Nat} (hbase : base ≤ 16)
    (hdigits : List.Forall₂ (IsDigit base) text digits) :
    text.mapM (digit? base) = some digits := by
  induction hdigits with
  | nil => rfl
  | cons hdigit _ ih =>
    rw [List.mapM_cons, digit?_eq_some hbase hdigit, ih]
    rfl

theorem number?_eq_some {base number : Nat} (hbase : base ≤ 16)
    (hnumber : IsNumeral base text number) : number? base text = some number := by
  have htext := hnumber.ne_nil
  obtain ⟨digits, -, hdigits, rfl⟩ := hnumber
  have hvalue : digits.foldl (fun number digit => base * number + digit) 0 =
      Nat.ofDigits base digits.reverse := by
    simp only [Nat.ofDigits_eq_foldr, List.foldr_reverse, Nat.add_comm, Nat.cast_id]
  rw [number?, if_neg htext, mapM_digit? hbase hdigits, Option.map_some, hvalue]

theorem isNumeral_word {base number : Nat} (hbase : base ≤ 16)
    (hnumber : IsNumeral base text number) : ∀ c ∈ text, isWordChar c := by
  intro c hc
  rw [isWordChar, hnumber.isAlphanum hbase c hc, Bool.true_or]

theorem reads_numeral {base number : Nat} (hbase : base ≤ 16)
    (hnumber : IsNumeral base text number) : Reads EndsWord (numeral base) text number := by
  refine (reads_word hnumber.ne_nil (isNumeral_word hbase hnumber)).finish ?_
  rw [number?_eq_some hbase hnumber]
  exact .pure

theorem reads_decimal (number : Nat) :
    Reads EndsWord decimal (Nat.toDigits 10 number) number :=
  reads_numeral (by omega) (isNumeral_toDigits (by omega) (by omega) number)

theorem before_append (chars front : List Char) : before chars (front ++ chars) = some front := by
  rw [before, List.reverse_append, behind_append, Option.map_some, List.reverse_reverse]

theorem reads_hexadecimal {suffix : String} (hsuffix : ∀ c ∈ suffix.toList, isWordChar c)
    (number : UInt64) :
    Reads EndsWord (hexadecimal suffix) (hex number.toNat ++ suffix).toList number := by
  have hnumeral := isNumeral_toDigits (Nat.le_refl 16) (by omega) number.toNat
  have hchars : (hex number.toNat ++ suffix).toList =
      "0x".toList ++ (Nat.toDigits 16 number.toNat ++ suffix.toList) := by
    rw [hex, String.toList_append, String.toList_append, List.append_assoc,
      String.toList_ofList (l := Nat.toDigits 16 number.toNat)]
  have hword : Reads EndsWord word (Nat.toDigits 16 number.toNat ++ suffix.toList) _ :=
    reads_word (List.append_ne_nil_of_left_ne_nil hnumeral.ne_nil _)
      (List.forall_mem_append.mpr ⟨isNumeral_word (Nat.le_refl 16) hnumeral, hsuffix⟩)
  rw [hchars]
  refine (reads_literally "0x").andThen (hword.finish ?_)
  rw [before_append, Option.bind_some, number?_eq_some (Nat.le_refl 16) hnumeral]
  change Reads _ (if number.toNat < UInt64.size then pure _ else failure) _ _
  rw [UInt64.ofNat_toNat]
  exact .of_guard number.toNat_lt

/-- A number with no mark behind it. -/
theorem reads_hex (number : UInt64) :
    Reads EndsWord (hexadecimal "") (hex number.toNat).toList number := by
  have hnone : ∀ c ∈ "".toList, isWordChar c := by simp
  have hreads := reads_hexadecimal hnone number
  rwa [String.append_empty] at hreads

theorem refuses_hexadecimal_text {chars : List Char} (hclash : clash chars ['0', 'x'] = true)
    (number : Nat) : Refuses (literally (String.ofList chars)) (hex number).toList := by
  rw [hex, String.toList_append]
  exact refuses_literally hclash

/-! ### Several of a kind -/

section

variable {γ : Type} {item : Scanner α} {next : List Char → Prop} {spell : γ → List Char}
  {meaning : γ → α} {items : List γ}

theorem itemsOf_of_none {input : List Char} (hrefused : item.run input = none) :
    itemsOf item input = ([], input) := by
  rw [itemsOf, show item input = none from hrefused]

theorem itemsOf_of_some {rest : List Char} (hread : item.run (text ++ rest) = some (value, rest))
    (hnil : text ≠ []) :
    itemsOf item (text ++ rest) = (value :: (itemsOf item rest).1, (itemsOf item rest).2) := by
  have hshorter : rest.length < (text ++ rest).length := by
    have hpos := List.length_pos_of_ne_nil hnil
    rw [List.length_append]
    omega
  rw [itemsOf, show item (text ++ rest) = some (value, rest) from hread]
  exact if_pos hshorter

/-- Items in a row, up to something that is none. -/
theorem reads_many (hitem : ∀ a ∈ items, Reads next item (spell a) (meaning a))
    (hnil : ∀ a ∈ items, spell a ≠ []) (hnext : ∀ a ∈ items, ∀ rest, next (spell a ++ rest)) :
    Reads (fun rest => next rest ∧ item.run rest = none) (many item) (items.flatMap spell)
      (items.map meaning) := by
  intro rest hrest
  have hitems : itemsOf item (items.flatMap spell ++ rest) = (items.map meaning, rest) := by
    induction items with
    | nil => exact itemsOf_of_none hrest.2
    | cons a items ih =>
      obtain ⟨ha, hitems⟩ := List.forall_mem_cons.mp hitem
      obtain ⟨hanil, hitemsnil⟩ := List.forall_mem_cons.mp hnil
      obtain ⟨-, hitemsnext⟩ := List.forall_mem_cons.mp hnext
      have hbehind : next (items.flatMap spell ++ rest) := by
        cases items with
        | nil => exact hrest.1
        | cons b items =>
          rw [List.flatMap_cons, List.append_assoc]
          exact hitemsnext b List.mem_cons_self _
      rw [List.flatMap_cons, List.append_assoc, itemsOf_of_some (ha _ hbehind) hanil,
        ih hitems hitemsnil hitemsnext, List.map_cons]
  exact congrArg some hitems

/-- Items that end by themselves. -/
theorem reads_items (hitem : ∀ a ∈ items, Reads Anything item (spell a) (meaning a))
    (hnil : ∀ a ∈ items, spell a ≠ []) :
    Reads (fun rest => item.run rest = none) (many item) (items.flatMap spell)
      (items.map meaning) :=
  (reads_many hitem hnil fun _ _ _ => trivial).mono fun _ hrefused => ⟨trivial, hrefused⟩

theorem intercalate_cons_map (mark first : List Char) (items : List γ) :
    mark.intercalate (first :: items.map spell) =
      first ++ items.flatMap fun a => mark ++ spell a := by
  induction items generalizing first with
  | nil => simp
  | cons a items ih =>
    rw [List.map_cons, List.intercalate_cons_cons, ih, List.flatMap_cons, List.append_assoc,
      List.append_assoc]

theorem notMem_intercalate {c : Char} {mark : List Char} (hmark : c ∉ mark)
    (hitems : ∀ a ∈ items, c ∉ spell a) : c ∉ mark.intercalate (items.map spell) := by
  cases items with
  | nil => exact List.not_mem_nil
  | cons a items =>
    obtain ⟨ha, hrest⟩ := List.forall_mem_cons.mp hitems
    rw [List.map_cons, intercalate_cons_map, List.mem_append, List.mem_flatMap, not_or]
    refine ⟨ha, ?_⟩
    intro hmem
    obtain ⟨b, hb, hc⟩ := hmem
    rcases List.mem_append.mp hc with hc | hc
    · exact hmark hc
    · exact hrest b hb hc

/-- Items with a mark in front of each. -/
theorem reads_following {between : String} {print : γ → String}
    (hitem : ∀ a ∈ items, Reads EndsWord item (print a).toList (meaning a))
    (hmark : IsMark between) :
    Reads (fun rest => EndsWord rest ∧ (literally between).run rest = none)
      (many do literally between; item)
      (items.flatMap fun a => between.toList ++ (print a).toList) (items.map meaning) := by
  have hreads : Reads
      (fun rest => EndsWord rest ∧ (do literally between; item : Scanner α).run rest = none)
      (many do literally between; item)
      (items.flatMap fun a => between.toList ++ (print a).toList) (items.map meaning) := by
    apply reads_many
    · exact fun a ha => (reads_literally between).andThen (hitem a ha)
    · exact fun a _ => List.append_ne_nil_of_left_ne_nil hmark.ne_nil _
    · intro a _ rest
      rw [List.append_assoc]
      exact hmark.endsWord _
  exact hreads.mono fun rest hbehind => ⟨hbehind.1, run_bind_of_refused hbehind.2⟩

/-- A mark ends the word in front of it. -/
theorem endsWord_following {between : String} (hmark : IsMark between) {rest : List Char}
    (hrest : EndsWord rest) :
    EndsWord (items.flatMap (fun a => between.toList ++ spell a) ++ rest) := by
  cases items with
  | nil => exact hrest
  | cons a items =>
    rw [List.flatMap_cons, List.append_assoc, List.append_assoc]
    exact hmark.endsWord _

/-- Items with a mark between any two. -/
theorem reads_separated {between : String} {print : γ → String} (hitems : items ≠ [])
    (hitem : ∀ a ∈ items, Reads EndsWord item (print a).toList (meaning a))
    (hmark : IsMark between) :
    Reads (fun rest => EndsWord rest ∧ (literally between).run rest = none) (separated between item)
      (between.intercalate (items.map print)).toList (items.map meaning) := by
  rw [String.toList_intercalate, List.map_map]
  obtain ⟨a, items, rfl⟩ := List.exists_cons_of_ne_nil hitems
  obtain ⟨ha, hitems⟩ := List.forall_mem_cons.mp hitem
  rw [List.map_cons, intercalate_cons_map]
  exact ha.bind (fun _ hrest => endsWord_following hmark hrest.1)
    ((reads_following hitems hmark).map _)

/-- The same, where what is read is what was printed. -/
theorem reads_separated_self {between : String} {items : List α} {print : α → String}
    (hitems : items ≠ []) (hitem : ∀ a, Reads EndsWord item (print a).toList a)
    (hmark : IsMark between) :
    Reads (fun rest => EndsWord rest ∧ (literally between).run rest = none) (separated between item)
      (between.intercalate (items.map print)).toList items := by
  have hreads := reads_separated hitems (fun a _ => hitem a) hmark
  rwa [List.map_id'] at hreads

end

/-! ### Items of which nothing is kept -/

section

variable {item : Scanner Unit} {second : Unit → Scanner β}

theorem run_skipping (input : List Char) :
    (skipping item >>= second).run input = (second ()).run (itemsOf item input).2 :=
  rfl

theorem skip_one (hitem : Reads Anything item text ()) (hnil : text ≠ [])
    (hrest : Reads last (skipping item >>= second) others result) :
    Reads last (skipping item >>= second) (text ++ others) result := by
  intro rest hlast
  have hbehind := hrest rest hlast
  rw [run_skipping] at hbehind ⊢
  rw [List.append_assoc, itemsOf_of_some (hitem _ trivial) hnil]
  exact hbehind

theorem skip_none (hrefused : Refuses item others)
    (hsecond : Reads last (second ()) others result) :
    Reads last (skipping item >>= second) others result := by
  intro rest hlast
  rw [run_skipping, itemsOf_of_none (hrefused rest)]
  exact hsecond rest hlast

theorem refuses_behind_skipping (hrefused : Refuses item others)
    (hsecond : Refuses (second ()) others) : Refuses (skipping item >>= second) others := by
  intro rest
  rw [run_skipping, itemsOf_of_none (hrefused rest)]
  exact hsecond rest

theorem skip_line {line : String} {rest : List String}
    (hline : Reads Anything item (line.toList ++ ['\n']) ())
    (hrest : Reads last (skipping item >>= second) (Lines.unlines rest).toList result) :
    Reads last (skipping item >>= second) (Lines.unlines (line :: rest)).toList result := by
  rw [Lines.toList_unlines_cons, ← List.append_assoc]
  exact skip_one hline (by simp) hrest

theorem skip_lines {texts rest : List String}
    (htexts : ∀ line ∈ texts, Reads Anything item (line.toList ++ ['\n']) ())
    (hrest : Reads last (skipping item >>= second) (Lines.unlines rest).toList result) :
    Reads last (skipping item >>= second) (Lines.unlines (texts ++ rest)).toList result := by
  induction texts with
  | nil => exact hrest
  | cons line texts ih =>
    obtain ⟨hline, htexts⟩ := List.forall_mem_cons.mp htexts
    exact skip_line hline (ih htexts)

end

/-- The line opens like this, and ends at the next break. -/
structure Opens (opening chars : List Char) : Prop where
  isPrefix : opening <+: chars
  newline_notMem : '\n' ∉ chars

theorem reads_lineOpening {opening : String} {chars : List Char}
    (hopens : Opens opening.toList chars) :
    Reads last (lineOpening opening) (chars ++ ['\n']) () := by
  obtain ⟨⟨more, rfl⟩, hline⟩ := hopens
  rw [List.append_assoc]
  refine (reads_literally opening).andThen (reads_restOfLine ?_)
  exact fun hmem => hline (List.mem_append_right _ hmem)

theorem readAll_eq_some {scanner : Scanner α} {source : String}
    (hreads : Reads last scanner source.toList value) (hlast : last []) :
    readAll scanner source = some value := by
  have hrun := hreads [] hlast
  rw [List.append_nil] at hrun
  rw [readAll, show scanner source.toList = some (value, []) from hrun]

end Scanner

end CommandWord
