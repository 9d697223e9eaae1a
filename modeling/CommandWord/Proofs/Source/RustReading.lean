import CommandWord.Proofs.Source.Ranges
import CommandWord.Proofs.Source.Remarks
import CommandWord.Source.RustReading
import CommandWord.Source.Target

/-!
A Rust source is read as the program that its codec stands for. Each part of the source is read
by the scanner for it, and what is read says what the routine says.
-/

namespace CommandWord.RustReading

open Digits Quoted Scanner Lines

variable {last : List Char → Prop}

-- what a variant is made of is never looked at
attribute [local irreducible] Command.variant

/-! ### Declarations -/

variable (codec : Codec)

theorem isRemark_summary : IsRemark ("// " ++ RustText.summary codec).toList := by
  have hopening : IsRemark "// ".toList := isRemark_ofList (by rfl)
  rw [String.toList_append]
  exact hopening.append (List.cons_ne_nil _ _) (notMem_summary codec (Or.inl rfl))

theorem reads_constants :
    Reads last constants (unlines (RustText.banner codec ++ RustText.constants codec)).toList
      (RustText.wordBits codec.totalBits, codec.totalBits, codec.mask) := by
  unfold RustText.banner RustText.constants
  refine remark_line isRemark_generated (remark_lines [_] (by rfl)
    (remark_line (isRemark_summary codec) (remark_lines [_, _, _] (by rfl) ?_)))
  rw [toList_unlines_cons]
  simp only [toString, String.toList_append, List.append_assoc, Nat.toList_repr]
  refine code_line ((opensCode_ofList (by rfl)).append _) ?_
  refine (reads_literally _).andThen ((reads_decimal _).bind (fun _ _ => endsWord_mark rfl)
    ((reads_literally _).andThen (reads_lineBreak.andThen ?_)))
  refine remark_lines [_, _, _] (by rfl) ?_
  rw [toList_unlines_cons]
  simp only [RustText.wordType, toString, String.toList_append, List.append_assoc, Nat.toList_repr]
  refine code_line ((opensCode_ofList (by rfl)).append _) ?_
  refine (reads_literally _).andThen ((reads_literally _).andThen ((reads_decimal _).bind
    (fun _ _ => endsWord_mark rfl) ((reads_literally _).andThen ((reads_hex _).bind
      (fun _ _ => endsWord_mark rfl) ((reads_literally _).andThen
        (reads_lineBreak.andThen ?_))))))
  refine remark_lines [_, _] (by rfl) ?_
  refine code_lines (opensCode_append (opensCode_append (opensCode_ofList (by rfl)))) ?_
  refine remark_lines [_, _] (by rfl) ?_
  rw [toList_unlines_cons]
  simp only [String.toList_append, List.append_assoc, paddedHex, String.toList_ofList]
  refine code_line ((opensCode_ofList (by rfl)).append _) ((reads_literally _).andThen
    ((reads_numeral (Nat.le_refl 16) (isNumeral_padded (Nat.le_refl 16) (by omega) 8 _)).bind
      (fun _ _ => endsWord_mark rfl) ((reads_literally _).andThen
        ((reads_lines _).finish .pure))))

theorem newline_notMem_encodeChar (c : Char) : '\n' ∉ encodeChar c := by
  unfold encodeChar
  split_ifs with _ _ hbreak
  · decide
  · decide
  · decide
  · decide
  · decide
  · decide
  · have hdigits := (isNumeral_toDigits (Nat.le_refl 16) (by omega) c.toNat).notMem
      (Nat.le_refl 16) (rfl : '\n'.isAlphanum = false)
    simpa using hdigits
  · simpa using Ne.symm hbreak

theorem opens_headerLine (entry : Entry) :
    Opens "    (".toList (RustText.headerLine entry).toList := by
  simp only [RustText.headerLine, quote, hex, toString, String.toList_append,
    String.toList_ofList, Nat.toList_repr, List.append_assoc]
  refine ⟨⟨_, rfl⟩, ?_⟩
  have hname : '\n' ∉ entry.command.name.toList.flatMap encodeChar := by
    intro hmem
    obtain ⟨c, -, hc⟩ := List.mem_flatMap.mp hmem
    exact newline_notMem_encodeChar c hc
  have hcode := (isNumeral_toDigits (Nat.le_refl 16) (by omega) entry.header.code.toNat).notMem
    (Nat.le_refl 16) (rfl : '\n'.isAlphanum = false)
  simp [hname, hcode, newline_notMem_toDigits]

theorem reads_headerTable :
    Reads last (headerTable (RustText.wordType codec.totalBits))
      (unlines (RustText.headerTable codec)).toList () := by
  unfold RustText.headerTable
  simp only [List.cons_append, List.nil_append]
  refine remark_lines [_] (by rfl) ?_
  rw [toList_unlines_cons, toList_unlines_append]
  simp only [toString, String.toList_append, List.append_assoc, Nat.toList_repr]
  refine code_line rfl ?_
  refine (reads_literally _).andThen ((reads_literally _).andThen ((reads_literally _).andThen
    ((reads_decimal _).bind (fun _ _ => rfl) ((reads_literally _).andThen
      (reads_lineBreak.andThen ?_)))))
  rw [← toList_unlines_append]
  refine skip_lines ?_ (skip_none ?_ (reads_lines _))
  · intro line hmem
    obtain ⟨entry, -, rfl⟩ := List.mem_map.mp hmem
    exact reads_lineOpening (opens_headerLine entry)
  · rw [toList_unlines_cons]
    exact (refuses_literally rfl).bind

/-! ### Kinds of messages -/

theorem isRemark_kind {name : String} (hname : IsIdentifier name) (others : List Char)
    (hothers : '\n' ∉ others) :
    IsRemark ("    /// `".toList ++ (name.toList ++ others)) := by
  have hopening : IsRemark "    /// `".toList := isRemark_ofList (by rfl)
  have hbreak : '\n' ∉ name.toList := hname.notMem rfl
  refine hopening.append (List.cons_ne_nil _ _) ?_
  rw [List.mem_append, not_or]
  exact ⟨hbreak, hothers⟩

theorem reads_types {fields : List Nat} (hfields : fields ≠ []) (word : String) :
    Reads (fun rest => EndsWord rest ∧ (literally ", ").run rest = none)
      (separated ", " (literally word)) (", ".intercalate (fields.map fun _ => word)).toList
      (fields.map fun _ => ()) :=
  reads_separated hfields (fun _ _ => reads_literally word) (isMark_ofList rfl)

theorem newline_notMem_widths (widths : List Nat) :
    '\n' ∉ (", ".intercalate (widths.map toString)).toList := by
  rw [String.toList_intercalate, List.map_map]
  refine notMem_intercalate (notMem_ofList rfl) fun width _ => ?_
  change '\n' ∉ width.repr.toList
  rw [Nat.toList_repr]
  exact newline_notMem_toDigits width

theorem reads_variant {command : Command} (husable : command.HasUsableName) (word : String) :
    Reads last (variant word) (unlines (RustText.variantLines word command)).toList
      (command.variant, command.fields.length) := by
  obtain ⟨hname, hkind, -⟩ := husable
  unfold RustText.variantLines
  split
  next hfields =>
    refine remark_line ?_ ?_
    · simp only [toString, String.toList_append, List.append_assoc]
      exact isRemark_kind hname _ (notMem_ofList rfl)
    · rw [toList_unlines_cons, hfields]
      simp only [toString, String.toList_append, List.append_assoc]
      refine code_line (opensCode_identifier hkind _) ?_
      refine (reads_literally _).andThen ((reads_identifier hkind).bind
        (fun _ _ => endsWord_mark rfl) (.orElse_left ?_))
      exact (reads_literally _).andThen (reads_lineBreak.andThen .pure)
  next hfields =>
    refine remark_line ?_ ?_
    · have hwidths := newline_notMem_widths command.fields
      simp only [toString, String.toList_append, List.append_assoc] at hwidths ⊢
      refine isRemark_kind hname _ ?_
      simp only [List.mem_append, not_or]
      exact ⟨notMem_ofList rfl, hwidths, notMem_ofList rfl⟩
    · rw [toList_unlines_cons]
      simp only [toString, String.toList_append, List.append_assoc]
      refine code_line (opensCode_identifier hkind _) ?_
      refine (reads_literally _).andThen ((reads_identifier hkind).bind
        (fun _ _ => endsWord_mark rfl) (.orElse_right (refuses_literally rfl).bind ?_))
      refine (reads_literally _).andThen ((reads_types hfields word).bind
        (fun _ _ => ⟨endsWord_mark rfl, refuses_literally rfl _⟩) ?_)
      rw [List.length_map]
      exact (reads_literally _).andThen (reads_lineBreak.andThen .pure)

theorem variantLines_ne_nil (word : String) (command : Command) :
    RustText.variantLines word command ≠ [] := by
  unfold RustText.variantLines
  split <;> simp

theorem reads_messageType :
    Reads last (messageType (RustText.wordType codec.totalBits))
      (unlines (RustText.messageType codec)).toList
      (codec.registry.commands.map fun command => (command.variant, command.fields.length)) := by
  unfold RustText.messageType
  rw [List.append_assoc]
  refine code_lines rfl ?_
  rw [toList_unlines_append, toList_unlines_flatMap]
  refine (reads_items ?_ ?_).bind ?_ ((reads_lines _).finish .pure)
  · intro command hmem
    exact reads_variant (codec.registry.valid.usable command hmem) _
  · exact fun command _ => toList_unlines_ne_nil (variantLines_ne_nil _ command)
  · have hend : Refuses (variant (RustText.wordType codec.totalBits))
        (unlines ["\x7d", ""]).toList := by
      rw [toList_unlines_cons]
      exact refuses_code rfl (Refuses.bind fun _ => rfl)
    exact fun rest _ => hend rest

theorem reads_errorType (word : String) :
    Reads last (errorType word) (unlines (RustText.errorType word)).toList () := by
  refine remark_lines [_] (by rfl) (code_lines (opensCode_ofList (by rfl)) ?_)
  refine remark_lines [_] (by rfl) (code_lines ?_ ?_)
  · exact opensCode_append (opensCode_append (opensCode_ofList (by rfl)))
  refine remark_lines [_] (by rfl) (code_lines ?_ ?_)
  · exact opensCode_append (opensCode_append (opensCode_ofList (by rfl)))
  refine remark_lines [_] (by rfl) (code_lines (opensCode_ofList (by rfl)) ?_)
  refine remark_lines [_] (by rfl) (code_line ?_ (reads_lines _))
  exact opensCode_unlines (opensCode_ofList (by rfl))

/-! ### Encoding -/

theorem reads_hasCheck (word : String) (checked : Bool) :
    Reads (fun rest => (checkFunction word).run rest = none) (hasCheck word)
      (unlines (if checked then RustText.checkFunction word else [])).toList checked := by
  cases checked with
  | true => exact .orElse_left ((reads_lines _).finish .pure)
  | false => exact .orElse_of_refused (fun _ => run_bind_of_refused) .pure

theorem reads_term (part : Term) : Reads EndsWord term (RustText.term part).toList part := by
  cases part with
  | field index shift =>
    simp only [RustText.term, toString, String.toList_append, List.append_assoc, Nat.toList_repr]
    refine .orElse_left ((reads_literally _).andThen ((reads_decimal index).bind
      (fun _ _ => endsWord_mark rfl) ((reads_literally _).andThen ((reads_decimal shift).bind
        (fun _ _ => endsWord_ofList rfl) ((reads_literally _).finish .pure)))))
  | literal value =>
    exact .orElse_right (refuses_hexadecimal_text rfl _).bind ((reads_hex value).map _)

theorem reads_terms {parts : List Term} (hparts : parts ≠ []) :
    Reads (fun rest => EndsWord rest ∧ (literally " | ").run rest = none) terms
      (" | ".intercalate (parts.map RustText.term)).toList parts :=
  reads_separated_self hparts reads_term (isMark_ofList rfl)

/-- A term is no call of the check. -/
theorem refuses_check {parts : List Term} (hparts : parts ≠ []) (others : List Char) :
    Refuses check ("            ".toList ++
      ((" | ".intercalate (parts.map RustText.term)).toList ++ others)) := by
  obtain ⟨part, parts, rfl⟩ := List.exists_cons_of_ne_nil hparts
  rw [String.toList_intercalate, List.map_map, List.map_cons, intercalate_cons_map,
    List.append_assoc]
  refine Refuses.bind (refuses_literally_append (List.replicate 12 ' ') "check(".toList ?_)
  cases part with
  | field index shift =>
    simp only [Function.comp, RustText.term, toString, String.toList_append, List.append_assoc]
    exact refuses_literally rfl
  | literal value =>
    simp only [Function.comp, RustText.term, hex, String.toList_append, List.append_assoc]
    exact refuses_literally rfl

theorem reads_check (index width : Nat) :
    Reads last check (s!"            check({index}, f{index}, {width})?;".toList ++ ['\n'])
      (index, width) := by
  simp only [toString, String.toList_append, List.append_assoc, Nat.toList_repr]
  refine (reads_literally _).andThen ((reads_decimal index).bind (fun _ _ => endsWord_mark rfl)
    ((reads_literally _).andThen ((reads_decimal index).bind (fun _ _ => endsWord_mark rfl)
      ((reads_literally _).andThen ((reads_decimal width).bind (fun _ _ => endsWord_mark rfl)
        ((reads_literally _).andThen (reads_lineBreak.finish (.of_guard rfl))))))))

/-- An arm that can be told from its lines. -/
structure Legible (arm : EncodeArm) : Prop where
  kind : IsIdentifier arm.kind
  terms : arm.terms ≠ []
  places : arm.checks.map Prod.fst = List.range arm.checks.length

theorem reads_bindings {checks : List (Nat × Nat)} (hchecks : checks ≠ []) :
    Reads (fun rest => EndsWord rest ∧ (literally ", ").run rest = none)
      (separated ", " (do literally "f"; decimal))
      (", ".intercalate (checks.map fun (index, _) => s!"f{index}")).toList
      (checks.map Prod.fst) := by
  refine reads_separated hchecks ?_ (isMark_ofList rfl)
  intro (index, _) _
  simp only [toString, String.toList_append, Nat.toList_repr]
  exact (reads_literally _).andThen (reads_decimal index)

theorem reads_encodeArm {arm : EncodeArm} (hlegible : Legible arm) :
    Reads last encodeArm (unlines (RustText.encodeArm arm)).toList arm := by
  obtain ⟨kind, checks, terms⟩ := arm
  obtain ⟨hkind, hterms, hplaces⟩ := hlegible
  unfold RustText.encodeArm
  split
  next hchecks =>
    obtain rfl : checks = [] := hchecks
    rw [toList_unlines_cons]
    simp only [toString, String.toList_append, List.append_assoc]
    refine (reads_literally _).andThen ((reads_identifier hkind).bind (fun _ _ => endsWord_mark rfl)
      (.orElse_left ?_))
    exact (reads_literally _).andThen ((reads_terms hterms).bind
      (fun _ _ => ⟨endsWord_mark rfl, refuses_literally rfl _⟩) ((reads_literally _).andThen
        (reads_lineBreak.andThen .pure)))
  next hchecks =>
    rw [List.append_assoc, List.cons_append, List.nil_append, toList_unlines_cons,
      toList_unlines_append, toList_unlines_cons]
    simp only [toString, String.toList_append, List.append_assoc]
    refine (reads_literally _).andThen ((reads_identifier hkind).bind (fun _ _ => endsWord_mark rfl)
      (.orElse_right (refuses_literally rfl).bind ?_))
    refine (reads_literally _).andThen ((reads_bindings hchecks).bind
      (fun _ _ => ⟨endsWord_mark rfl, refuses_literally rfl _⟩) ((reads_literally _).andThen
        (reads_lineBreak.andThen ?_)))
    rw [toList_unlines, List.flatMap_map]
    refine Reads.bind (reads_items (fun check _ => reads_check check.1 check.2) (by simp)) ?_ ?_
    · intro rest _
      exact refuses_check hterms _ rest
    · rw [List.map_id']
      refine (reads_literally _).andThen ((reads_terms hterms).bind ?_
        (reads_lineBreak.andThen ((reads_lines _).finish (.of_guard hplaces))))
      exact fun rest _ => ⟨rfl, rfl⟩

theorem legible_ofEntry {codec : Codec} {entry : Entry} (hentry : entry ∈ codec.entries) :
    Legible (EncodeArm.ofEntry Command.variant entry) where
  kind := (codec.registry.valid.usable _ (Codec.command_mem_of_mem hentry)).2.1
  terms := EncodeArm.terms_ofEntry_ne_nil Command.variant entry
  places := by
    rw [EncodeArm.ofEntry, List.map_map, List.length_map]
    exact entry.map_index_slots

theorem encodeArm_ne_nil (arm : EncodeArm) : RustText.encodeArm arm ≠ [] := by
  unfold RustText.encodeArm
  split <;> simp

theorem reads_encodeFunction :
    Reads last (encodeFunction (RustText.wordType codec.totalBits))
      (unlines (RustText.encodeFunction (Routine.ofCodec codec Command.variant))).toList
      (codec.entries.map (EncodeArm.ofEntry Command.variant)) := by
  unfold RustText.encodeFunction
  rw [List.append_assoc]
  refine remark_lines [_] (by rfl) (code_lines ?_ ?_)
  · exact opensCode_append (opensCode_append (opensCode_ofList (by rfl)))
  rw [toList_unlines_append, toList_unlines_flatMap, Routine.ofCodec, List.flatMap_map]
  refine (reads_items ?_ ?_).bind ?_ ((reads_lines _).finish .pure)
  · intro entry hmem
    exact reads_encodeArm (legible_ofEntry hmem)
  · exact fun entry _ => toList_unlines_ne_nil (encodeArm_ne_nil _)
  · intro rest _
    rw [toList_unlines_cons]
    exact (refuses_literally rfl).bind rest

/-! ### Decoding -/

theorem reads_cut (totalBits : Nat) :
    Reads last cut (unlines (RustText.rawValue totalBits)).toList
      (if totalBits < RustText.wordBits totalBits then some (lowMask totalBits) else none) := by
  unfold RustText.rawValue
  split
  next hwide =>
    refine .orElse_left (lines_andThen ?_)
    rw [toList_unlines_cons]
    simp only [toString, String.toList_append, List.append_assoc]
    exact (reads_literally _).andThen ((reads_hex _).bind (fun _ _ => endsWord_mark rfl)
      ((reads_literally _).andThen (reads_lineBreak.andThen .pure)))
  next hfull =>
    refine .orElse_right ?_ ((reads_lines _).finish .pure)
    rw [toList_unlines_cons]
    exact (refuses_lines rfl).bind

theorem reads_padding (used : Option Nat) :
    Reads (fun rest => (literally "        if x >> ").run rest = none) padding
      (unlines (RustText.padding used)).toList used := by
  cases used with
  | none => exact .orElse_of_refused (fun _ => run_bind_of_refused) .pure
  | some used =>
    unfold RustText.padding
    rw [toList_unlines_cons]
    simp only [toString, String.toList_append, List.append_assoc, Nat.toList_repr]
    refine .orElse_left ((reads_literally _).andThen ((reads_decimal used).bind
      (fun _ _ => endsWord_mark rfl) ?_))
    rw [← toList_unlines_cons]
    exact (reads_lines _).finish .pure

theorem reads_extract (part : Extract) :
    Reads EndsWord extract (RustText.extract part).toList part := by
  cases part with
  | zero => exact .orElse_right (fun _ => rfl) ((reads_literally _).finish .pure)
  | bits shift mask =>
    simp only [RustText.extract, toString, String.toList_append, List.append_assoc,
      Nat.toList_repr]
    refine .orElse_left ((reads_literally _).andThen ((reads_decimal shift).bind
      (fun _ _ => endsWord_mark rfl) ((reads_literally _).andThen ?_)))
    exact (reads_hex mask).map _

theorem reads_fields (parts : List Extract) :
    Reads (fun rest => (literally "(").run rest = none) fields (RustText.fields parts).toList
      parts := by
  unfold RustText.fields
  split
  next hparts =>
    obtain rfl : parts = [] := hparts
    exact .orElse_of_refused (fun _ => run_bind_of_refused) .pure
  next hparts =>
    rw [String.toList_append, String.toList_append, List.append_assoc]
    refine .orElse_left ((reads_literally _).andThen (Reads.bind
      (reads_separated_self hparts reads_extract (isMark_ofList rfl))
      (fun rest _ => ⟨endsWord_ofList rfl, refuses_text rfl rest⟩)
      ((reads_literally _).finish .pure)))

/-- A kind ends where its fields begin, or the message. -/
theorem endsWord_fields (parts : List Extract) (others rest : List Char) :
    EndsWord ((RustText.fields parts).toList ++ (");".toList ++ others) ++ rest) := by
  unfold RustText.fields
  split
  next =>
    rw [String.toList_empty, List.nil_append]
    exact endsWord_mark rfl
  next =>
    rw [String.toList_append, String.toList_append, List.append_assoc, List.append_assoc]
    exact endsWord_mark rfl

theorem reads_decodeArm {arm : DecodeArm} (hkind : IsIdentifier arm.kind) :
    Reads last decodeArm (unlines (RustText.decodeArm arm)).toList arm := by
  unfold RustText.decodeArm
  rw [List.append_assoc, List.cons_append, List.nil_append, toList_unlines_cons,
    toList_unlines_append, toList_unlines_cons]
  simp only [toString, String.toList_append, List.append_assoc]
  refine (reads_literally _).andThen ((reads_hex _).bind (fun _ _ => endsWord_mark rfl)
    ((reads_literally _).andThen ((reads_hex _).bind (fun _ _ => endsWord_mark rfl)
      ((reads_literally _).andThen (reads_lineBreak.andThen ((reads_padding _).bind
        (fun _ _ => refuses_literally rfl _) ((reads_literally _).andThen ?_)))))))
  refine (reads_identifier hkind).bind ?_ ((reads_fields _).bind
    (fun _ _ => refuses_literally rfl _) ?_)
  · exact fun rest _ => endsWord_fields _ _ rest
  · rw [← toList_unlines_cons]
    exact (reads_lines _).finish .pure

theorem decodeArm_ne_nil (arm : DecodeArm) : RustText.decodeArm arm ≠ [] := by
  simp [RustText.decodeArm]

theorem reads_decodeClass {headers : DecodeClass}
    (hkinds : ∀ arm ∈ headers.arms, IsIdentifier arm.kind) :
    Reads (fun rest => decodeArm.run rest = none) (group decodeArm)
      (unlines (RustText.decodeClass headers)).toList headers.arms := by
  have hopening : IsRemark "    // ".toList := isRemark_ofList (by rfl)
  have htitle := isRemark_class hopening (List.cons_ne_nil _ _) headers.headerLength
  have hreads := reads_group htitle
    (fun arm harm => reads_decodeArm (hkinds arm harm)) fun arm _ => decodeArm_ne_nil arm
  rwa [List.map_id'] at hreads

/-- A class opens with a remark, and that is no arm. -/
theorem refuses_decodeArm (headers : DecodeClass) :
    Refuses decodeArm (unlines (RustText.decodeClass headers)).toList := by
  unfold RustText.decodeClass
  rw [toList_unlines_cons]
  simp only [toString, String.toList_append, List.append_assoc]
  exact (refuses_literally rfl).bind

theorem reads_decodeClasses :
    Reads (fun rest => decodeArm.run rest = none ∧ (group decodeArm).run rest = none)
      (many (group decodeArm))
      ((Routine.ofCodec codec Command.variant).decoder.flatMap fun headers =>
        (unlines (RustText.decodeClass headers)).toList)
      ((Routine.ofCodec codec Command.variant).decoder.map DecodeClass.arms) := by
  refine reads_many ?_ ?_ ?_
  · intro headers hheaders
    refine reads_decodeClass fun arm harm => ?_
    obtain ⟨command, hcommand, hkind, -⟩ := Routine.exists_command_of_mem_decoder hheaders harm
    rw [hkind]
    exact (codec.registry.valid.usable _ hcommand).2.1
  · exact fun headers _ => toList_unlines_ne_nil (List.cons_ne_nil _ _)
  · exact fun headers _ => refuses_decodeArm headers

theorem reads_decodeFunction :
    Reads last (decodeFunction (RustText.wordType codec.totalBits))
      (unlines (RustText.decodeFunction (Routine.ofCodec codec Command.variant))).toList
      (if codec.totalBits < RustText.wordBits codec.totalBits then some (lowMask codec.totalBits)
        else none,
        (Routine.ofCodec codec Command.variant).decoder.flatMap DecodeClass.arms) := by
  unfold RustText.decodeFunction
  rw [List.append_assoc, List.append_assoc]
  refine remark_lines [_] (by rfl) (code_lines ?_ ?_)
  · exact opensCode_append (opensCode_append (opensCode_ofList (by rfl)))
  rw [toList_unlines_append, toList_unlines_append, toList_unlines_flatMap]
  refine (reads_cut _).andThen ((reads_decodeClasses codec).bind ?_ ((reads_lines _).finish .pure))
  intro rest _
  rw [toList_unlines_cons]
  refine ⟨(refuses_literally rfl).bind rest, ?_⟩
  exact (refuses_remark (.append (opensCode_ofList (by rfl)) _)).bind rest

/-! ### Sources -/

theorem isTyped_ofCodec : IsTyped
    (codec.registry.commands.map fun command => (command.variant, command.fields.length))
    (codec.entries.map (EncodeArm.ofEntry Command.variant))
    ((Routine.ofCodec codec Command.variant).decoder.flatMap DecodeClass.arms) := by
  constructor
  · rw [← codec.map_command_entries, List.map_map, List.map_map]
    apply List.map_congr_left
    intro entry hentry
    exact Prod.ext rfl (EncodeArm.length_checks_ofEntry Command.variant hentry)
  · intro arm harm
    obtain ⟨headers, hheaders, harm⟩ := List.mem_flatMap.mp harm
    obtain ⟨command, hcommand, hkind, hlength⟩ :=
      Routine.exists_command_of_mem_decoder hheaders harm
    rw [hkind, hlength]
    exact List.mem_map_of_mem hcommand

/-- The check is there if some arm calls it. -/
theorem checks_eq_nil {codec : Codec}
    (habsent : codec.registry.commands.any (·.fields ≠ []) = false) {arm : EncodeArm}
    (harm : arm ∈ codec.entries.map (EncodeArm.ofEntry Command.variant)) : arm.checks = [] := by
  obtain ⟨entry, hentry, rfl⟩ := List.mem_map.mp harm
  have hfields := List.any_eq_false.mp habsent _ (Codec.command_mem_of_mem hentry)
  have hlength := EncodeArm.length_checks_ofEntry Command.variant hentry
  rw [show entry.command.fields = [] by simpa using hfields] at hlength
  exact List.eq_nil_of_length_eq_zero hlength

theorem refuses_checkFunction (word : String) (routine : Routine) :
    Refuses (checkFunction word) (unlines (RustText.encodeFunction routine)).toList := by
  unfold RustText.encodeFunction checkFunction
  rw [List.append_assoc, List.cons_append, toList_unlines_cons]
  exact refuses_lines rfl

theorem wordBits_mem (totalBits : Nat) : RustText.wordBits totalBits ∈ [8, 16, 32, 64] := by
  unfold RustText.wordBits
  split_ifs <;> decide

theorem reads_program : Reads Anything program (RustText.source codec).toList
    (RustText.wordBits codec.totalBits,
      (rustTarget (RustText.wordBits codec.totalBits)).program codec) := by
  unfold RustText.source
  rw [toList_unlines_append, toList_unlines_append, toList_unlines_append, toList_unlines_append,
    toList_unlines_append, toList_unlines_append]
  simp only [List.append_assoc]
  refine (reads_constants codec).andThen ((reads_headerTable codec).andThen
    ((reads_messageType codec).andThen ((reads_errorType _).andThen ((reads_hasCheck _ _).bind ?_
      ((reads_encodeFunction codec).andThen ((reads_decodeFunction codec).finish ?_))))))
  · exact fun rest _ => (refuses_checkFunction _ _).append rest
  · refine .of_guard ⟨wordBits_mem _, isTyped_ofCodec codec, ?_⟩
    rw [or_iff_not_imp_left, Bool.not_eq_true]
    exact fun habsent _ harm => checks_eq_nil habsent harm

theorem program?_source : program? (RustText.source codec) =
    some (RustText.wordBits codec.totalBits,
      (rustTarget (RustText.wordBits codec.totalBits)).program codec) :=
  readAll_eq_some (reads_program codec) trivial

end CommandWord.RustReading
