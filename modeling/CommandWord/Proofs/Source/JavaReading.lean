import CommandWord.Proofs.Source.Ranges
import CommandWord.Proofs.Source.Remarks
import CommandWord.Source.JavaReading
import CommandWord.Source.Target

/-!
A Java source is read as the program that its codec stands for, whatever the names of its package
and its class. The signed word that the mask is declared with is the word of all other parts.
-/

namespace CommandWord.JavaText

/-- The signed word of a source: `int` up to 31 bits, `long` up to 63. -/
theorem exists_signedWord {totalBits size : Nat} (hbits : totalBits ≤ 63)
    (hsize : size = if totalBits ≤ 31 then 32 else 64) :
    ∃ word, SignedWord.ofTotalBits? totalBits = some word ∧ word.bits = size := by
  unfold SignedWord.ofTotalBits?
  by_cases hnarrow : totalBits ≤ 31
  · rw [if_pos hnarrow] at hsize ⊢
    exact ⟨_, rfl, hsize.symm⟩
  · rw [if_neg hnarrow] at hsize ⊢
    rw [if_pos hbits]
    exact ⟨_, rfl, hsize.symm⟩

end CommandWord.JavaText

namespace CommandWord.JavaReading

open Digits Scanner Lines
open JavaText (SignedWord)

variable {last : List Char → Prop}

/-! ### Words -/

/-- A signed word that a source can have. -/
structure IsSigned (word : SignedWord) : Prop where
  reads : Reads EndsWord signedWord word.type.toList word
  suffix : ∀ c ∈ word.suffix.toList, isWordChar c

theorem isSigned_of_totalBits {totalBits : Nat} {word : SignedWord}
    (hword : SignedWord.ofTotalBits? totalBits = some word) : IsSigned word := by
  unfold SignedWord.ofTotalBits? at hword
  split_ifs at hword
  · obtain rfl := Option.some.inj hword
    exact ⟨.orElse_left ((reads_literally _).finish .pure), List.forall_mem_nil _⟩
  · obtain rfl := Option.some.inj hword
    refine ⟨.orElse_right (refuses_text rfl).bind ((reads_literally _).finish .pure), ?_⟩
    exact List.forall_mem_singleton.mpr rfl

theorem IsSigned.reads_literal {word : SignedWord} (hword : IsSigned word) (value : UInt64) :
    Reads EndsWord (hexadecimal word.suffix) (word.literal value).toList value :=
  reads_hexadecimal hword.suffix value

/-! ### Declarations -/

variable (codec : Codec) {word : SignedWord}

theorem reads_opening {className : String} (hclass : ' ' ∉ className.toList) :
    Reads last opening (unlines (JavaText.opening codec className)).toList () := by
  have hsummary : ∀ c ∈ (RustText.summary codec).toList, (c != '\n' && c != '/') = true := by
    intro c hc
    have hbreak : c ≠ '\n' := ne_of_mem_of_not_mem hc (notMem_summary codec (Or.inl rfl))
    have hslash : c ≠ '/' := ne_of_mem_of_not_mem hc (notMem_summary codec (Or.inr rfl))
    simp [hbreak, hslash]
  unfold JavaText.opening
  refine lines_andThen ?_
  rw [toList_unlines_cons, String.toList_append, List.append_assoc]
  refine (reads_literally _).andThen ((reads_span hsummary).bind ?_
    (reads_lineBreak.andThen (lines_andThen ?_)))
  · intro rest _ c hc
    obtain rfl : '\n' = c := Option.some.inj hc
    rfl
  · rw [toList_unlines_cons]
    simp only [toString, String.toList_append, List.append_assoc]
    exact (reads_literally _).andThen ((reads_until hclass).bind (fun _ _ => head?_ofList _ _ _ _)
      ((reads_literally _).andThen (reads_lineBreak.finish .pure)))

theorem reads_package {name : String} (hname : ';' ∉ name.toList) :
    Reads last package (unlines [s!"package {name};"]).toList () := by
  rw [toList_unlines_cons]
  simp only [toString, String.toList_append, List.append_assoc]
  exact .orElse_left ((reads_literally _).andThen ((reads_until hname).bind
    (fun _ _ => head?_ofList _ _ _ _) ((reads_literally _).andThen (reads_lineBreak.finish .pure))))

theorem reads_no_package :
    Reads (fun rest => (literally "package ").run rest = none) package [] () :=
  .orElse_of_refused (fun _ => run_bind_of_refused) .pure

theorem reads_banner {name className : String} (hname : ';' ∉ name.toList)
    (hclass : ' ' ∉ className.toList) :
    Reads last banner (unlines (JavaText.banner codec name className)).toList () := by
  have hcode : OpensCode (unlines (JavaText.opening codec className)).toList := by
    unfold JavaText.opening
    exact opensCode_unlines (opensCode_ofList (by rfl))
  have hopening : Reads last (remarks >>= fun _ => opening)
      (unlines (JavaText.opening codec className)).toList () :=
    code_line hcode (reads_opening codec hclass)
  unfold JavaText.banner
  rw [List.append_assoc, List.append_assoc, List.cons_append, List.nil_append]
  refine remark_line isRemark_generated ?_
  split
  next =>
    rw [List.nil_append]
    refine remark_lines [_] (by rfl) (code_line hcode (reads_no_package.absent ?_ hopening))
    unfold JavaText.opening
    rw [toList_unlines_cons]
    exact fun rest _ => refuses_literally rfl rest
  next =>
    refine code_line ?_ ?_
    · exact opensCode_unlines (opensCode_append (opensCode_append (opensCode_ofList (by rfl))))
    · rw [toList_unlines_append]
      exact (reads_package hname).andThen (remark_lines [_] (by rfl) hopening)

theorem reads_constants (hword : IsSigned word) :
    Reads last constants (unlines (JavaText.constants codec word)).toList
      (codec.totalBits, word, codec.mask) := by
  unfold JavaText.constants
  rw [toList_unlines_cons]
  simp only [toString, String.toList_append, List.append_assoc, Nat.toList_repr]
  refine (reads_literally _).andThen ((reads_decimal _).bind (fun _ _ => endsWord_mark rfl)
    ((reads_literally _).andThen (reads_lineBreak.andThen (lines_andThen ?_))))
  rw [toList_unlines_cons]
  simp only [String.toList_append, List.append_assoc]
  refine (reads_literally _).andThen (hword.reads.bind (fun _ _ => endsWord_mark rfl)
    ((reads_literally _).andThen ((hword.reads_literal _).bind (fun _ _ => endsWord_mark rfl)
      ((reads_literally _).andThen (reads_lineBreak.andThen (lines_andThen ?_))))))
  rw [toList_unlines_cons]
  simp only [String.toList_append, List.append_assoc, paddedHex, String.toList_ofList]
  refine (reads_literally _).andThen ((reads_numeral (Nat.le_refl 16)
    (isNumeral_padded (Nat.le_refl 16) (by omega) 8 _)).bind (fun _ _ => endsWord_mark rfl)
      ((reads_literally _).andThen ((reads_lines _).finish .pure)))

theorem reads_types (word : SignedWord) :
    Reads last (types word) (unlines (JavaText.types codec word)).toList
      (codec.registry.commands.map Command.name) := by
  unfold JavaText.types
  refine lines_andThen ?_
  rw [toList_unlines_cons, String.toList_append, List.append_assoc]
  refine (reads_literally _).andThen (Reads.bind (reads_separated codec.registry.valid.ne_nil ?_
    (isMark_ofList rfl)) ?_ (reads_lineBreak.andThen
      ((reads_lines _).finish .pure)))
  · intro command hmem
    exact reads_identifier (codec.registry.valid.usable command hmem).1
  · exact fun rest _ => ⟨rfl, rfl⟩

/-! ### Encoding -/

theorem reads_term (hword : IsSigned word) (part : Term) :
    Reads EndsWord (term word) (JavaText.term word part).toList part := by
  cases part with
  | field index shift =>
    simp only [JavaText.term, toString, String.toList_append, List.append_assoc, Nat.toList_repr]
    exact .orElse_left ((reads_literally _).andThen ((reads_decimal index).bind
      (fun _ _ => endsWord_mark rfl) ((reads_literally _).andThen ((reads_decimal shift).bind
        (fun _ _ => endsWord_ofList rfl) ((reads_literally _).finish .pure)))))
  | literal value =>
    refine .orElse_right ?_ ((hword.reads_literal value).map _)
    rw [JavaText.term, SignedWord.literal, String.toList_append]
    exact (refuses_hexadecimal_text rfl _).append.bind

theorem reads_check (index width : Nat) :
    Reads last check (s!"                field(data, {index}, {width});".toList ++ ['\n'])
      (index, width) := by
  simp only [toString, String.toList_append, List.append_assoc, Nat.toList_repr]
  exact (reads_literally _).andThen ((reads_decimal index).bind (fun _ _ => endsWord_mark rfl)
    ((reads_literally _).andThen ((reads_decimal width).bind (fun _ _ => endsWord_mark rfl)
      ((reads_literally _).andThen (reads_lineBreak.finish .pure)))))

theorem reads_encodeArm (hword : IsSigned word) {arm : EncodeArm} (hkind : IsIdentifier arm.kind)
    (hterms : arm.terms ≠ []) :
    Reads last (encodeArm word) (unlines (JavaText.encodeArm word arm)).toList arm := by
  unfold JavaText.encodeArm
  rw [List.append_assoc, List.cons_append, List.cons_append, List.nil_append, toList_unlines_cons,
    toList_unlines_cons, toList_unlines_append, toList_unlines_cons]
  simp only [toString, String.toList_append, List.append_assoc, Nat.toList_repr]
  refine (reads_literally _).andThen ((reads_identifier hkind).bind (fun _ _ => endsWord_mark rfl)
    ((reads_literally _).andThen (reads_lineBreak.andThen ((reads_literally _).andThen
      ((reads_decimal _).bind (fun _ _ => endsWord_mark rfl) ((reads_literally _).andThen
        (reads_lineBreak.andThen ?_)))))))
  rw [toList_unlines, List.flatMap_map]
  refine Reads.bind (reads_items (fun check _ => reads_check check.1 check.2) (by simp)) ?_ ?_
  · exact fun rest _ => (refuses_literally rfl).bind rest
  · rw [List.map_id']
    refine (reads_literally _).andThen (Reads.bind (reads_separated_self hterms (reads_term hword)
      (isMark_ofList rfl)) ?_ ((reads_literally _).andThen
        (reads_lineBreak.andThen ((reads_lines _).finish (.of_guard rfl)))))
    exact fun rest _ => ⟨endsWord_mark rfl, refuses_literally rfl rest⟩

theorem encodeArm_ne_nil (word : SignedWord) (arm : EncodeArm) :
    JavaText.encodeArm word arm ≠ [] := by
  simp [JavaText.encodeArm]

theorem reads_encodeFunction (hword : IsSigned word) :
    Reads last (encodeFunction word)
      (unlines (JavaText.encodeFunction (Routine.ofCodec codec Command.name) word)).toList
      (codec.entries.map (EncodeArm.ofEntry Command.name)) := by
  unfold JavaText.encodeFunction
  rw [List.append_assoc]
  refine lines_andThen ?_
  rw [toList_unlines_append, toList_unlines_flatMap, Routine.ofCodec, List.flatMap_map]
  refine (reads_items ?_ ?_).bind ?_ ((reads_lines _).finish .pure)
  · intro entry hmem
    exact reads_encodeArm hword
      (codec.registry.valid.usable _ (Codec.command_mem_of_mem hmem)).1
      (EncodeArm.terms_ofEntry_ne_nil Command.name entry)
  · exact fun entry _ => toList_unlines_ne_nil (encodeArm_ne_nil word _)
  · intro rest _
    rw [toList_unlines_cons]
    exact (refuses_literally rfl).bind rest

/-! ### Decoding -/

theorem reads_padding (used : Option Nat) :
    Reads (fun rest => (literally "            if ((x >>> ").run rest = none) padding
      (unlines (JavaText.padding used)).toList used := by
  cases used with
  | none => exact .orElse_of_refused (fun _ => run_bind_of_refused) .pure
  | some used =>
    unfold JavaText.padding
    rw [toList_unlines_cons]
    simp only [toString, String.toList_append, List.append_assoc, Nat.toList_repr]
    refine .orElse_left ((reads_literally _).andThen ((reads_decimal used).bind
      (fun _ _ => endsWord_mark rfl) ?_))
    rw [← toList_unlines_cons]
    exact (reads_lines _).finish .pure

theorem reads_extract (hword : IsSigned word) (part : Extract) :
    Reads EndsWord (extract word) (JavaText.extract word part).toList part := by
  cases part with
  | zero =>
    refine .orElse_right ?_ ((hword.reads_literal 0).finish (.of_guard rfl))
    rw [JavaText.extract, SignedWord.literal, String.toList_append]
    exact (refuses_hexadecimal_text rfl _).append.bind
  | bits shift mask =>
    simp only [JavaText.extract, toString, String.toList_append, List.append_assoc,
      Nat.toList_repr]
    refine .orElse_left ((reads_literally _).andThen ((reads_decimal shift).bind
      (fun _ _ => endsWord_mark rfl) ((reads_literally _).andThen ?_)))
    exact (hword.reads_literal mask).map _

theorem reads_decodeArm (hword : IsSigned word) {arm : DecodeArm} (hkind : IsIdentifier arm.kind) :
    Reads last (decodeArm word) (unlines (JavaText.decodeArm word arm)).toList arm := by
  unfold JavaText.decodeArm
  rw [List.append_assoc, List.cons_append, List.nil_append, toList_unlines_cons,
    toList_unlines_append, toList_unlines_cons]
  simp only [toString, String.toList_append, String.toList_intercalate, List.map_cons,
    List.map_map, intercalate_cons_map, List.append_assoc]
  refine (reads_literally _).andThen ((hword.reads_literal _).bind (fun _ _ => endsWord_mark rfl)
    ((reads_literally _).andThen ((hword.reads_literal _).bind (fun _ _ => endsWord_mark rfl)
      ((reads_literally _).andThen (reads_lineBreak.andThen ((reads_padding _).bind
        (fun _ _ => refuses_literally rfl _) ((reads_literally _).andThen
          ((reads_literally _).andThen ?_))))))))
  refine (reads_identifier hkind).bind ?_ (Reads.bind (reads_following
    (fun part _ => reads_extract hword part) (isMark_ofList rfl)) ?_ ?_)
  · intro rest _
    rw [List.append_assoc]
    exact endsWord_following (isMark_ofList rfl) (endsWord_mark rfl)
  · exact fun rest _ => ⟨endsWord_mark rfl, refuses_literally rfl rest⟩
  · rw [← toList_unlines_cons, List.map_id']
    exact (reads_lines _).finish .pure

theorem decodeArm_ne_nil (word : SignedWord) (arm : DecodeArm) :
    JavaText.decodeArm word arm ≠ [] := by
  simp [JavaText.decodeArm]

theorem reads_decodeClass (hword : IsSigned word) {headers : DecodeClass}
    (hkinds : ∀ arm ∈ headers.arms, IsIdentifier arm.kind) :
    Reads (fun rest => (decodeArm word).run rest = none) (group (decodeArm word))
      (unlines (JavaText.decodeClass word headers)).toList headers.arms := by
  have hopening : IsRemark "        // ".toList := isRemark_ofList (by rfl)
  have htitle := isRemark_class hopening (List.cons_ne_nil _ _) headers.headerLength
  have hreads := reads_group htitle
    (fun arm harm => reads_decodeArm hword (hkinds arm harm)) fun arm _ => decodeArm_ne_nil word arm
  rwa [List.map_id'] at hreads

/-- A class opens with a remark, and that is no arm. -/
theorem refuses_decodeArm (headers : DecodeClass) :
    Refuses (decodeArm word) (unlines (JavaText.decodeClass word headers)).toList := by
  unfold JavaText.decodeClass
  rw [toList_unlines_cons]
  simp only [toString, String.toList_append, List.append_assoc]
  exact (refuses_literally rfl).bind

theorem reads_decodeClasses (hword : IsSigned word) :
    Reads (fun rest => (decodeArm word).run rest = none ∧ (group (decodeArm word)).run rest = none)
      (many (group (decodeArm word)))
      ((Routine.ofCodec codec Command.name).decoder.flatMap fun headers =>
        (unlines (JavaText.decodeClass word headers)).toList)
      ((Routine.ofCodec codec Command.name).decoder.map DecodeClass.arms) := by
  refine reads_many ?_ ?_ ?_
  · intro headers hheaders
    refine reads_decodeClass hword fun arm harm => ?_
    obtain ⟨command, hcommand, hkind, -⟩ := Routine.exists_command_of_mem_decoder hheaders harm
    rw [hkind]
    exact (codec.registry.valid.usable _ hcommand).1
  · exact fun headers _ => toList_unlines_ne_nil (List.cons_ne_nil _ _)
  · exact fun headers _ => refuses_decodeArm headers

theorem reads_decodeFunction (hword : IsSigned word) :
    Reads last (decodeFunction word)
      (unlines (JavaText.decodeFunction (Routine.ofCodec codec Command.name) word)).toList
      (lowMask codec.totalBits,
        (Routine.ofCodec codec Command.name).decoder.flatMap DecodeClass.arms) := by
  unfold JavaText.decodeFunction
  simp only [List.cons_append, List.nil_append]
  refine lines_andThen ?_
  rw [toList_unlines_cons, toList_unlines_append, toList_unlines_flatMap]
  simp only [toString, String.toList_append, List.append_assoc]
  refine (reads_literally _).andThen ((reads_literally _).andThen ((reads_literally _).andThen
    ((hword.reads_literal _).bind (fun _ _ => endsWord_mark rfl) ((reads_literally _).andThen
      (reads_lineBreak.andThen ?_)))))
  refine (reads_decodeClasses codec hword).bind ?_ ((reads_lines _).finish .pure)
  intro rest _
  rw [toList_unlines_cons]
  refine ⟨(refuses_literally rfl).bind rest, ?_⟩
  exact (refuses_remark (.append (opensCode_ofList (by rfl)) _)).bind rest

/-! ### Sources -/

theorem isLabelled_ofCodec : IsLabelled (codec.registry.commands.map Command.name)
    (codec.entries.map (EncodeArm.ofEntry Command.name))
    ((Routine.ofCodec codec Command.name).decoder.flatMap DecodeClass.arms) := by
  constructor
  · rw [← codec.map_command_entries, List.map_map, List.map_map]
    rfl
  · intro arm harm
    obtain ⟨headers, hheaders, harm⟩ := List.mem_flatMap.mp harm
    obtain ⟨command, hcommand, hkind, -⟩ := Routine.exists_command_of_mem_decoder hheaders harm
    rw [hkind]
    exact List.mem_map_of_mem hcommand

theorem reads_program (hword : IsSigned word) {name className : String}
    (hname : ';' ∉ name.toList) (hclass : ' ' ∉ className.toList) :
    Reads Anything program
      (unlines (JavaText.banner codec name className ++ JavaText.constants codec word ++
        JavaText.types codec word ++
        JavaText.encodeFunction (Routine.ofCodec codec Command.name) word ++
        JavaText.decodeFunction (Routine.ofCodec codec Command.name) word ++
        JavaText.checkFunctions word)).toList
      (word.bits, ⟨codec.totalBits, codec.mask, codec.entries.map (EncodeArm.ofEntry Command.name),
        some (lowMask codec.totalBits),
        (Routine.ofCodec codec Command.name).decoder.flatMap DecodeClass.arms⟩) := by
  rw [toList_unlines_append, toList_unlines_append, toList_unlines_append, toList_unlines_append,
    toList_unlines_append]
  simp only [List.append_assoc]
  exact (reads_banner codec hname hclass).andThen ((reads_constants codec hword).andThen
    ((reads_types codec word).andThen ((reads_encodeFunction codec hword).andThen
      ((reads_decodeFunction codec hword).andThen ((reads_lines _).finish
        (.of_guard (isLabelled_ofCodec codec)))))))

/-- The names of a package and of a class end where they are read to end. -/
theorem notMem_of_nameFault {codec : Codec} {package className : String}
    (hfault : JavaText.nameFault codec package className = none) :
    ';' ∉ package.toList ∧ ' ' ∉ className.toList := by
  unfold JavaText.nameFault at hfault
  split_ifs at hfault with hclass hpackage
  refine ⟨?_, hclass.1.notMem rfl rfl⟩
  rcases hpackage with rfl | hparts
  · exact List.not_mem_nil
  · have hjoined : ['.'].intercalate (package.toList.splitOn '.') = package.toList :=
      List.intercalate_splitOn '.'
    rw [← hjoined, ← List.map_id (List.splitOn _ _)]
    refine notMem_intercalate (by decide) ?_
    intro part hpart
    have hnot : ';' ∉ (String.ofList part).toList := (hparts part hpart).1.notMem rfl rfl
    rwa [String.toList_ofList] at hnot

/-- Whatever names it is given, a source is read as the program of its codec. -/
theorem program?_source {codec : Codec} {size : Nat} (hbits : codec.totalBits ≤ 63)
    (hsize : size = if codec.totalBits ≤ 31 then 32 else 64) {package className text : String}
    (hsource : JavaText.source codec package className = .ok text) :
    program? text = some (size, (javaTarget size).program codec) := by
  obtain ⟨word, hword, hwordBits⟩ := JavaText.exists_signedWord hbits hsize
  have hcut := WordTarget.cut_program (javaTarget size) codec
  rw [if_pos (by split_ifs at hsize <;> omega)] at hcut
  unfold JavaText.source at hsource
  simp only [hword] at hsource
  split at hsource
  · contradiction
  next hfault =>
    obtain ⟨hname, hclass⟩ := notMem_of_nameFault hfault
    obtain rfl := Except.ok.inj hsource
    have hread := readAll_eq_some
      (reads_program codec (isSigned_of_totalBits hword) hname hclass) trivial
    rw [hwordBits, ← hcut] at hread
    exact hread

end CommandWord.JavaReading
