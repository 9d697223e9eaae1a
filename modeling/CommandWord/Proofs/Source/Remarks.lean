import CommandWord.Proofs.Source.Scanning
import CommandWord.Source.RustText

/-!
Remarks between the lines of a source. They are passed over one by one, up to a line of code: one
that begins, behind its blanks, with neither a slash nor a line break.
-/

namespace CommandWord.Scanner

open Digits Lines

variable {α β γ : Type} {last : List Char → Prop} {result : β} {second : Unit → Scanner β}

/-- Nothing, or two slashes. -/
def isSlashes : List Char → Bool
  | [] => true
  | '/' :: '/' :: _ => true
  | _ => false

/-- Nothing but blanks, or two slashes behind them, on one line. -/
structure IsRemark (chars : List Char) : Prop where
  opens : isSlashes (chars.dropWhile (· == ' ')) = true
  newline_notMem : '\n' ∉ chars

theorem isRemark_ofList {chars : List Char}
    (hchars : (isSlashes (chars.dropWhile (· == ' ')) && chars.all (· != '\n')) = true) :
    IsRemark (String.ofList chars).toList := by
  rw [Bool.and_eq_true, List.all_eq_true] at hchars
  rw [String.toList_ofList]
  refine ⟨hchars.1, ?_⟩
  intro hmem
  have hne := hchars.2 _ hmem
  contradiction

theorem isSlashes_cases {chars : List Char} (hchars : isSlashes chars = true) :
    chars = [] ∨ ∃ more, chars = "//".toList ++ more := by
  unfold isSlashes at hchars
  split at hchars
  next => exact Or.inl rfl
  next more => exact Or.inr ⟨more, rfl⟩
  next => contradiction

theorem reads_remark {chars : List Char} (hremark : IsRemark chars) :
    Reads last remark (chars ++ ['\n']) () := by
  obtain ⟨hopens, hline⟩ := hremark
  have hblanks : Reads (fun rest => ∀ c ∈ rest.head?, (c == ' ') = false) (span (· == ' '))
      (chars.takeWhile (· == ' ')) (chars.takeWhile (· == ' ')) :=
    reads_span (List.all_eq_true.mp List.all_takeWhile)
  rw [← List.takeWhile_append_dropWhile (p := (· == ' ')) (l := chars), List.append_assoc]
  rcases isSlashes_cases hopens with hempty | ⟨more, hmore⟩
  · rw [hempty]
    refine hblanks.bind ?_ reads_lineBreak.orElse_left
    intro rest _ c hc
    obtain rfl : '\n' = c := Option.some.inj hc
    rfl
  · have hnotMem : '\n' ∉ more := by
      intro hmem
      have hdrop : '\n' ∈ chars.dropWhile (· == ' ') := hmore ▸ List.mem_append_right _ hmem
      exact hline ((List.dropWhile_suffix _).mem hdrop)
    rw [hmore, List.append_assoc]
    refine hblanks.bind ?_ (Reads.orElse_right (refuses_of_clash rfl)
      ((reads_literally "//").andThen (reads_restOfLine hnotMem)))
    intro rest _ c hc
    obtain rfl : '/' = c := Option.some.inj hc
    rfl

theorem remark_line {line : String} {others : List String} (hremark : IsRemark line.toList)
    (hrest : Reads last (remarks >>= second) (unlines others).toList result) :
    Reads last (remarks >>= second) (unlines (line :: others)).toList result :=
  skip_line (reads_remark hremark) hrest

/-- Remarks that stand the same in every source. -/
theorem remark_lines (texts : List (List Char)) {others : List String}
    (htexts : (texts.all fun chars =>
      isSlashes (chars.dropWhile (· == ' ')) && chars.all (· != '\n')) = true)
    (hrest : Reads last (remarks >>= second) (unlines others).toList result) :
    Reads last (remarks >>= second) (unlines (texts.map String.ofList ++ others)).toList
      result := by
  induction texts with
  | nil => exact hrest
  | cons chars texts ih =>
    rw [List.all_cons, Bool.and_eq_true] at htexts
    exact remark_line (isRemark_ofList htexts.1) (ih htexts.2)

/-- What comes is no remark: behind the blanks there is something else than the end of the line or
two slashes. -/
def OpensCode (chars : List Char) : Prop :=
  (clash ['\n'] (chars.dropWhile (· == ' ')) &&
    clash ['/', '/'] (chars.dropWhile (· == ' '))) = true

theorem opensCode_ofList {chars : List Char}
    (hchars : (clash ['\n'] (chars.dropWhile (· == ' ')) &&
      clash ['/', '/'] (chars.dropWhile (· == ' '))) = true) :
    OpensCode (String.ofList chars).toList := by
  rwa [String.toList_ofList]

theorem OpensCode.ne_nil {chars : List Char} (hcode : OpensCode chars) :
    chars.dropWhile (· == ' ') ≠ [] := by
  intro hempty
  rw [OpensCode, hempty] at hcode
  contradiction

theorem OpensCode.append {chars : List Char} (hcode : OpensCode chars) (others : List Char) :
    OpensCode (chars ++ others) := by
  have hopens := hcode.ne_nil
  rw [OpensCode, Bool.and_eq_true] at hcode ⊢
  rw [List.dropWhile_append, if_neg (by simpa using hopens)]
  exact ⟨clash_append hcode.1 others, clash_append hcode.2 others⟩

theorem opensCode_append {first second : String} (hfirst : OpensCode first.toList) :
    OpensCode (first ++ second).toList := by
  rw [String.toList_append]
  exact hfirst.append _

theorem refuses_remark {chars : List Char} (hcode : OpensCode chars) : Refuses remark chars := by
  obtain ⟨c, more, hchars⟩ := List.exists_cons_of_ne_nil hcode.ne_nil
  have hblank : (c == ' ') = false := by
    have hnot := List.head?_dropWhile_not (· == ' ') chars
    rw [hchars] at hnot
    exact hnot
  rw [OpensCode, Bool.and_eq_true, hchars] at hcode
  rw [← List.takeWhile_append_dropWhile (p := (· == ' ')) (l := chars), hchars]
  refine .behind (reads_span (List.all_eq_true.mp List.all_takeWhile)) ?_ ?_
  · intro rest first hfirst
    obtain rfl : c = first := Option.some.inj hfirst
    exact hblank
  · exact (refuses_of_clash hcode.1).orElse (refuses_of_clash hcode.2).bind

theorem code_line {chars : List Char} (hcode : OpensCode chars)
    (hsecond : Reads last (second ()) chars result) :
    Reads last (remarks >>= second) chars result :=
  skip_none (refuses_remark hcode) hsecond

theorem refuses_code {chars : List Char} (hcode : OpensCode chars)
    (hsecond : Refuses (second ()) chars) : Refuses (remarks >>= second) chars :=
  refuses_behind_skipping (refuses_remark hcode) hsecond

theorem opensCode_unlines {line : String} {texts : List String} (hcode : OpensCode line.toList) :
    OpensCode (unlines (line :: texts)).toList := by
  rw [toList_unlines_cons]
  exact hcode.append _

/-- Lines of code that stand the same in every source, with no remark in front. -/
theorem code_lines {line : String} {texts others : List String} (hcode : OpensCode line.toList)
    (hsecond : Reads last (second ()) (unlines others).toList result) :
    Reads last (remarks >>= fun _ => lines (line :: texts) >>= second)
      (unlines (line :: texts ++ others)).toList result :=
  code_line (opensCode_unlines hcode) (lines_andThen hsecond)

/-- The summary is one line and has no slash. -/
theorem notMem_summary (codec : Codec) {c : Char} (hc : c = '\n' ∨ c = '/') :
    c ∉ (RustText.summary codec).toList := by
  have hdigits : c.isAlphanum = false := by rcases hc with rfl | rfl <;> rfl
  have hlayout : c ∉ codec.layout.name.toList := by
    rcases hc with rfl | rfl <;> cases codec.layout <;> decide
  simp only [RustText.summary, toString, String.toList_append, List.mem_append, not_or, and_assoc,
    Nat.toList_repr]
  refine ⟨notMem_toDigits hdigits _, ?_, notMem_toDigits hdigits _, ?_, hlayout, ?_⟩
  all_goals rcases hc with rfl | rfl <;> decide

theorem opensCode_identifier {name : String} (hname : IsIdentifier name) (others : List Char) :
    OpensCode ("    ".toList ++ (name.toList ++ others)) := by
  obtain ⟨first, more, hchars, hfirst, -⟩ := exists_first_of_isIdentifier hname
  have hblank : first ≠ ' ' := by
    rintro rfl
    contradiction
  have hslash : '/' ≠ first := by
    rintro rfl
    contradiction
  have hbreak : '\n' ≠ first := by
    rintro rfl
    contradiction
  rw [hchars]
  simp [OpensCode, clash, hblank, hslash, hbreak]

/-- The first line of every source. -/
theorem isRemark_generated :
    IsRemark s!"// @generated by {RustText.generator}. Do not edit.".toList := by
  simp only [toString, RustText.generator, String.toList_append, List.append_assoc]
  refine ⟨rfl, ?_⟩
  simp only [List.mem_append, not_or]
  exact ⟨notMem_ofList rfl, notMem_ofList rfl, notMem_ofList rfl⟩

theorem IsRemark.append {chars others : List Char} (hremark : IsRemark chars)
    (hopens : chars.dropWhile (· == ' ') ≠ []) (hothers : '\n' ∉ others) :
    IsRemark (chars ++ others) := by
  constructor
  · rw [List.dropWhile_append, if_neg (by simpa using hopens)]
    rcases isSlashes_cases hremark.opens with hempty | ⟨more, hmore⟩
    · exact absurd hempty hopens
    · rw [hmore]
      rfl
  · rw [List.mem_append, not_or]
    exact ⟨hremark.newline_notMem, hothers⟩

/-- The remark above the arms of one length. -/
theorem isRemark_class {opening : String} (hopening : IsRemark opening.toList)
    (hopens : opening.toList.dropWhile (· == ' ') ≠ []) (length : Nat) :
    IsRemark (opening ++ toString length ++ "-bit headers").toList := by
  rw [String.toList_append, String.toList_append, List.append_assoc]
  refine hopening.append hopens ?_
  rw [List.mem_append, not_or, Nat.toString_eq_repr, Nat.toList_repr]
  exact ⟨newline_notMem_toDigits _, notMem_ofList rfl⟩

/-- Items under a remark, each in lines of its own. -/
theorem reads_group {title : String} {items : List γ} {linesOf : γ → List String}
    {item : Scanner α} {meaning : γ → α} (htitle : IsRemark title.toList)
    (hitem : ∀ a ∈ items, Reads Anything item (unlines (linesOf a)).toList (meaning a))
    (hlines : ∀ a ∈ items, linesOf a ≠ []) :
    Reads (fun rest => item.run rest = none) (group item)
      (unlines (title :: items.flatMap linesOf)).toList (items.map meaning) := by
  rw [toList_unlines_cons, toList_unlines_flatMap, ← List.append_assoc]
  exact (reads_remark htitle).andThen
    (reads_items hitem fun a ha => toList_unlines_ne_nil (hlines a ha))

end CommandWord.Scanner
