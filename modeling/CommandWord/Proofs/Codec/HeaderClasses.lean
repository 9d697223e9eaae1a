import CommandWord.Proofs.Codec.DecodeOrder
import CommandWord.Proofs.Header.Reordering

/-!
The header classes as one pass over the decode order finds them. An entry is only held against the
class before it; that this collects all commands of one length rests on the order, in which the
lengths never fall. Since sorting by length alone leaves commands of equal length as they stand,
the places within a class ascend too.
-/

namespace CommandWord

/-- A header length and the places of the commands whose headers are so long. -/
structure LengthClass where
  length : Nat
  ids : List Nat
  deriving DecidableEq

namespace LengthClass

/-- The class of entries whose headers are as long as the first one's. -/
def ofEntries (entries : List Entry) : LengthClass :=
  ⟨entries.head?.elim 0 (·.header.length), entries.map Entry.id⟩

/-- Collect one more entry: it joins the last class if that has its length, and otherwise begins a
class of its own. -/
def collect (classes : List LengthClass) (entry : Entry) : List LengthClass :=
  match classes.getLast? with
  | some last =>
      if last.length = entry.header.length then
        classes.dropLast ++ [⟨last.length, last.ids ++ [entry.id]⟩]
      else classes ++ [⟨entry.header.length, [entry.id]⟩]
  | none => [⟨entry.header.length, [entry.id]⟩]

/-- The places of a class, each with the length. -/
def members (lengthClass : LengthClass) : List (Nat × Nat) :=
  lengthClass.ids.map fun id => (lengthClass.length, id)

variable {classes : List LengthClass} {last : LengthClass} {entries : List Entry} {entry : Entry}

theorem collect_of_eq (hlength : last.length = entry.header.length) :
    collect (classes ++ [last]) entry = classes ++ [⟨last.length, last.ids ++ [entry.id]⟩] := by
  simp only [collect, List.getLast?_concat, List.dropLast_concat, if_pos hlength]

theorem collect_of_ne (hlength : last.length ≠ entry.header.length) :
    collect (classes ++ [last]) entry =
      classes ++ [last] ++ [⟨entry.header.length, [entry.id]⟩] := by
  simp only [collect, List.getLast?_concat, if_neg hlength]

/-- The classes hold these entries in this order, each under its length; none is empty, and the
lengths ascend. -/
structure Hold (classes : List LengthClass) (entries : List Entry) : Prop where
  members_eq : classes.flatMap members = entries.map fun entry => (entry.header.length, entry.id)
  ids_ne_nil : ∀ lengthClass ∈ classes, lengthClass.ids ≠ []
  ascending : (classes.map LengthClass.length).IsChain (· < ·)

namespace Hold

theorem exists_entry (hhold : Hold classes entries) {lengthClass : LengthClass}
    (hclass : lengthClass ∈ classes) {id : Nat} (hid : id ∈ lengthClass.ids) :
    ∃ entry ∈ entries, entry.id = id ∧ entry.header.length = lengthClass.length := by
  have hmember : (lengthClass.length, id) ∈ classes.flatMap members :=
    List.mem_flatMap.mpr ⟨lengthClass, hclass, List.mem_map_of_mem hid⟩
  rw [hhold.members_eq] at hmember
  obtain ⟨entry, hentry, heq⟩ := List.mem_map.mp hmember
  obtain ⟨hlength, hid⟩ := Prod.mk.inj heq
  exact ⟨entry, hentry, hid, hlength⟩

theorem ids_eq (hhold : Hold classes entries) :
    classes.flatMap LengthClass.ids = entries.map Entry.id := by
  have hids := congrArg (List.map Prod.snd) hhold.members_eq
  simpa only [List.map_flatMap, members, List.map_map, Function.comp_def, List.map_id'] using hids

theorem join_last (hhold : Hold (classes ++ [last]) entries)
    (hlength : last.length = entry.header.length) :
    Hold (classes ++ [⟨last.length, last.ids ++ [entry.id]⟩]) (entries ++ [entry]) := by
  obtain ⟨hmembers, hnil, hascending⟩ := hhold
  refine ⟨?_, ?_, ?_⟩
  · rw [List.map_append, ← hmembers]
    simp [members, hlength]
  · intro lengthClass hclass
    rcases List.mem_append.mp hclass with hbefore | hlast
    · exact hnil lengthClass (List.mem_append_left _ hbefore)
    · rw [List.mem_singleton.mp hlast]
      simp
  · rw [List.map_append] at hascending ⊢
    exact hascending

theorem begin_class (hhold : Hold (classes ++ [last]) entries)
    (hlonger : last.length < entry.header.length) :
    Hold (classes ++ [last] ++ [⟨entry.header.length, [entry.id]⟩]) (entries ++ [entry]) := by
  obtain ⟨hmembers, hnil, hascending⟩ := hhold
  refine ⟨?_, ?_, ?_⟩
  · rw [List.map_append, ← hmembers, List.flatMap_append]
    rfl
  · intro lengthClass hclass
    rcases List.mem_append.mp hclass with hbefore | hnew
    · exact hnil lengthClass hbefore
    · rw [List.mem_singleton.mp hnew]
      exact List.cons_ne_nil _ _
  · rw [List.map_append, List.isChain_append]
    exact ⟨hascending, List.isChain_singleton _, by simpa using hlonger⟩

/-- An entry that is not shorter than those before it is collected under its length. -/
theorem collect (hhold : Hold classes entries)
    (hlongest : ∀ earlier ∈ entries, earlier.header.length ≤ entry.header.length) :
    Hold (collect classes entry) (entries ++ [entry]) := by
  rcases List.eq_nil_or_concat' classes with hnil | ⟨front, last, hconcat⟩
  · subst hnil
    have hentries : entries = [] := List.map_eq_nil_iff.mp hhold.members_eq.symm
    subst hentries
    exact ⟨rfl, by simp [LengthClass.collect], List.isChain_singleton _⟩
  · subst hconcat
    by_cases hlength : last.length = entry.header.length
    · rw [collect_of_eq hlength]
      exact hhold.join_last hlength
    · have hlast : last ∈ front ++ [last] := List.mem_append_right _ (List.mem_singleton_self last)
      obtain ⟨id, hid⟩ := List.exists_mem_of_ne_nil _ (hhold.ids_ne_nil last hlast)
      obtain ⟨earlier, hearlier, -, hsame⟩ := hhold.exists_entry hlast hid
      have hle := hlongest earlier hearlier
      rw [collect_of_ne hlength]
      exact hhold.begin_class (by omega)

end Hold

/-- Entries whose lengths never fall are collected into their classes. -/
theorem hold_foldl_collect
    (hsorted : entries.Pairwise fun first second => first.header.length ≤ second.header.length) :
    Hold (entries.foldl collect []) entries := by
  induction entries using List.reverseRecOn with
  | nil => exact ⟨rfl, by simp, List.isChain_nil⟩
  | append_singleton entries entry ih =>
    rw [List.pairwise_append] at hsorted
    obtain ⟨hbefore, -, hlongest⟩ := hsorted
    rw [List.foldl_append]
    exact (ih hbefore).collect fun earlier hearlier =>
      hlongest earlier hearlier entry (List.mem_singleton_self entry)

theorem ofEntries_reverse {last : Entry} {before : List Entry}
    (hsame : ∀ member ∈ last :: before, member.header.length = last.header.length) :
    ofEntries (last :: before).reverse =
      ⟨last.header.length, (last :: before).reverse.map Entry.id⟩ := by
  cases hreverse : (last :: before).reverse with
  | nil => simp at hreverse
  | cons first rest =>
    have hfirst : first ∈ (last :: before).reverse := hreverse ▸ List.mem_cons_self
    rw [← hsame first (List.mem_reverse.mp hfirst)]
    rfl

/-- Splitting where the length changes finds the same classes. It holds an entry against the one
before it, and that one has the length of its class. -/
theorem map_ofEntries_splitBy_loop {last : Entry} {before : List Entry}
    {groups : List (List Entry)}
    (hsame : ∀ member ∈ last :: before, member.header.length = last.header.length) :
    (List.splitBy.loop (fun first second => first.header.length == second.header.length)
        entries last before groups).map ofEntries =
      entries.foldl collect (((last :: before).reverse :: groups).reverse.map ofEntries) := by
  have hbehind : ∀ (group : List Entry) (others : List (List Entry)),
      (group :: others).reverse.map ofEntries =
        others.reverse.map ofEntries ++ [ofEntries group] := by
    intro group others
    rw [List.reverse_cons, List.map_append, List.map_singleton]
  induction entries generalizing last before groups with
  | nil => rfl
  | cons next rest ih =>
    rw [List.splitBy.loop, List.foldl_cons, hbehind, ofEntries_reverse hsame]
    by_cases hlength : last.header.length = next.header.length
    · have hjoined : ∀ member ∈ next :: last :: before,
          member.header.length = next.header.length := by
        rw [← hlength]
        exact List.forall_mem_cons.mpr ⟨hlength.symm, hsame⟩
      rw [beq_iff_eq.mpr hlength, collect_of_eq hlength, hlength]
      refine (ih hjoined).trans ?_
      rw [hbehind, ofEntries_reverse hjoined, List.reverse_cons (a := next), List.map_append,
        List.map_singleton]
    · rw [beq_eq_false_iff_ne.mpr hlength, collect_of_ne hlength]
      refine (ih (by simp)).trans ?_
      rw [hbehind, hbehind, ofEntries_reverse hsame]
      rfl

theorem map_ofEntries_splitBy (entries : List Entry) :
    (entries.splitBy fun first second => first.header.length == second.header.length).map
        ofEntries = entries.foldl collect [] := by
  cases entries with
  | nil => rfl
  | cons first rest => exact map_ofEntries_splitBy_loop (by simp)

end LengthClass

namespace Codec

/-- The entries sorted by header length alone; the sort leaves equal lengths as they stand. -/
def stableOrder (codec : Codec) : List Entry :=
  codec.entries.mergeSort fun first second => first.header.length ≤ second.header.length

/-- The classes that one pass over the decode order collects. -/
def lengthClasses (codec : Codec) : List LengthClass :=
  codec.decodeOrder.foldl LengthClass.collect []

variable (codec : Codec)

theorem nodup_ids : (codec.entries.map Entry.id).Nodup := by
  rw [map_id_entries]
  exact List.nodup_range

theorem entries_sorted : codec.entries.Pairwise fun first second => first.id < second.id := by
  rw [← List.pairwise_map, map_id_entries]
  exact List.pairwise_lt_range

/-- Shorter headers stand first, and equal lengths by place. -/
theorem decodeOrder_sorted : codec.decodeOrder.Pairwise fun first second =>
    first.header.length < second.header.length ∨
      first.header.length = second.header.length ∧ first.id < second.id := by
  have hids : codec.decodeOrder.Pairwise fun first second => first.id ≠ second.id := by
    have hnodup := (codec.decodeOrder_perm.map Entry.id).nodup_iff.mpr codec.nodup_ids
    exact List.pairwise_map.mp hnodup
  have hsorted : codec.decodeOrder.Pairwise fun first second =>
      first.header.length < second.header.length ∨
        first.header.length = second.header.length ∧ first.id ≤ second.id := by
    refine (List.pairwise_mergeSort ?_ ?_ _).imp of_decide_eq_true
    · intro a b c hab hbc
      rw [decide_eq_true_eq] at hab hbc ⊢
      omega
    · intro a b
      rw [Bool.or_eq_true, decide_eq_true_eq, decide_eq_true_eq]
      omega
  refine (hsorted.and hids).imp ?_
  intro first second hboth
  omega

/-- To compare places as well changes nothing in a stable sort by length. -/
theorem decodeOrder_eq_stableOrder : codec.decodeOrder = codec.stableOrder := by
  have hsorted := pairwise_mergeSort_key (fun entry => entry.header.length)
    (List.Nodup.of_map Entry.id codec.nodup_ids) codec.entries_sorted
  have hperm : codec.stableOrder.Perm codec.entries := List.mergeSort_perm _ _
  refine List.Perm.eq_of_pairwise ?_ codec.decodeOrder_sorted hsorted
    (codec.decodeOrder_perm.trans hperm.symm)
  intro first second _ _ hforth hback
  omega

theorem hold_lengthClasses : LengthClass.Hold codec.lengthClasses codec.decodeOrder := by
  apply LengthClass.hold_foldl_collect
  refine codec.decodeOrder_sorted.imp ?_
  intro first second hprecedes
  omega

theorem map_ofEntries_headerClasses :
    codec.headerClasses.map LengthClass.ofEntries = codec.lengthClasses :=
  LengthClass.map_ofEntries_splitBy codec.decodeOrder

/-- Within a class the places ascend. -/
theorem ids_ascending {lengthClass : LengthClass} (hclass : lengthClass ∈ codec.lengthClasses) :
    lengthClass.ids.Pairwise (· < ·) := by
  have hsorted : (codec.lengthClasses.flatMap LengthClass.members).Pairwise fun first second =>
      first.1 < second.1 ∨ first.1 = second.1 ∧ first.2 < second.2 := by
    rw [codec.hold_lengthClasses.members_eq, List.pairwise_map]
    exact codec.decodeOrder_sorted
  have hmembers := (List.pairwise_flatMap.mp hsorted).1 lengthClass hclass
  rw [LengthClass.members, List.pairwise_map] at hmembers
  refine hmembers.imp ?_
  intro first second hprecedes
  omega

/-- The header classes are what one pass over the stable order by header length collects. Their
lengths ascend, none is empty, every command stands in exactly one of them, under the length of its
header, the places within a class ascend, and the classes one after another are the decode
order. -/
theorem header_classes_partition_commands (codec : Codec) :
    codec.decodeOrder = codec.stableOrder ∧
    codec.headerClasses.map LengthClass.ofEntries = codec.lengthClasses ∧
    (codec.lengthClasses.map LengthClass.length).Pairwise (· < ·) ∧
    (∀ lengthClass ∈ codec.lengthClasses, lengthClass.ids ≠ []) ∧
    (codec.lengthClasses.flatMap LengthClass.ids).Perm
      (List.range codec.registry.commands.length) ∧
    (∀ lengthClass ∈ codec.lengthClasses, ∀ id ∈ lengthClass.ids,
      ∃ entry, codec.entry? id = some entry ∧ entry.header.length = lengthClass.length) ∧
    (∀ lengthClass ∈ codec.lengthClasses, lengthClass.ids.Pairwise (· < ·)) ∧
    codec.lengthClasses.flatMap LengthClass.ids = codec.decodeOrder.map Entry.id := by
  have hhold := codec.hold_lengthClasses
  refine ⟨codec.decodeOrder_eq_stableOrder, codec.map_ofEntries_headerClasses,
    List.isChain_iff_pairwise.mp hhold.ascending, hhold.ids_ne_nil, ?_, ?_,
    fun _ => codec.ids_ascending, hhold.ids_eq⟩
  · rw [hhold.ids_eq, ← map_id_entries]
    exact codec.decodeOrder_perm.map Entry.id
  · intro lengthClass hclass id hid
    obtain ⟨entry, hentry, rfl, hlength⟩ := hhold.exists_entry hclass hid
    exact ⟨entry, mem_entries_iff.mp (codec.decodeOrder_perm.mem_iff.mp hentry), hlength⟩

end Codec

end CommandWord
