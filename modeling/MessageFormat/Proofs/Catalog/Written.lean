import MessageFormat.Command.Run
import MessageFormat.Proofs.Catalog.Extraction
import MessageFormat.Proofs.Catalog.FailFast
import MessageFormat.Proofs.Text.Bytes

/-!
# Catalogs are read back from their files

A file holds a value in one of the two layouts and a line end. The catalog of its text is the one
that was written, and the ids stand in it in ascending order of their bytes, so the layout of a file
makes no difference to what it denotes.
-/

namespace MessageFormat

open Json (Draft Layout ReadError draftMembers)

/-! ### Putting back what is in order -/

theorem insertSorted_of_forall_lt {α : Type} {id : String} (value : α) {es : List (String × α)}
    (h : ∀ e ∈ es, e.1 < id) : insertSorted id value es = es ++ [(id, value)] := by
  induction es with
  | nil => rfl
  | cons e es ih =>
    have he : e.1 < id := h e List.mem_cons_self
    have hne : id ≠ e.1 := by
      intro heq
      rw [heq] at he
      exact String.lt_irrefl _ he
    rw [insertSorted, if_neg (String.lt_asymm he), if_neg hne,
      ih fun e he => h e (List.mem_cons_of_mem _ he), List.cons_append]

namespace Catalog

variable {α : Type}

/-- Pairs that are in order behind those of a catalog are added to its end. -/
theorem entries_insertAll {c : Catalog α} {pairs : List (String × α)}
    (h : (c.entries ++ pairs).Pairwise fun a b => a.1 < b.1) :
    (c.insertAll pairs).entries = c.entries ++ pairs := by
  induction pairs generalizing c with
  | nil => exact (List.append_nil _).symm
  | cons p pairs ih =>
    have hp : ∀ e ∈ c.entries, e.1 < p.1 := by
      intro e he
      exact (List.pairwise_append.1 h).2.2 e he p List.mem_cons_self
    have hinsert : (c.insert p.1 p.2).entries = c.entries ++ [p] :=
      insertSorted_of_forall_lt p.2 hp
    have hrest := ih (c := c.insert p.1 p.2) (by
      rw [hinsert, List.append_assoc]
      exact h)
    rw [insertAll, List.foldl_cons, ← insertAll, hrest, hinsert, List.append_assoc,
      List.singleton_append]

/-- A catalog is what comes of putting its own entries into an empty one. -/
theorem insertAll_entries (c : Catalog α) : empty.insertAll c.entries = c := by
  apply ext
  exact entries_insertAll (c := empty) c.sorted

end Catalog

/-! ### The text of a file -/

namespace Json

theorem scan_fileText {j : Json} (h : j.Integral) (layout : Layout) :
    Document.scan (fileText layout j) = ⟨j.draft, ['\n']⟩ := by
  have htext : (fileText layout j).toList = chars layout 0 j ++ ['\n'] := by
    rw [fileText, String.toList_append, render, String.toList_ofList]
    rfl
  exact scan_text h htext (endsNumeral_cons (by decide) [])

theorem rawOfText_fileText {j : Json} (h : j.Integral) (hdepth : j.depth ≤ maxDepth)
    (layout : Layout) : rawOfText (fileText layout j) = .ok j := by
  rw [rawOfText_eq_ok, scan_fileText h]
  exact ⟨read_draft j h hdepth, rfl⟩

theorem membersDepth_le {members : List (String × Json)} {n : Nat}
    (h : ∀ member ∈ members, member.2.depth ≤ n) : membersDepth members ≤ n := by
  induction members with
  | nil => exact Nat.zero_le n
  | cons member members ih =>
    rw [membersDepth]
    exact Nat.max_le.2 ⟨h member List.mem_cons_self,
      ih fun member hmember => h member (List.mem_cons_of_mem _ hmember)⟩

/-- The value of a text is an object, and its names ascend by their bytes from member to member. -/
def NamesAscend (text : String) : Prop :=
  ∃ members : List (String × Json), rawOfText text = .ok (.object members) ∧
    (members.map fun member => Text.bytes member.1).Pairwise (· < ·)

end Json

/-- How the values of a catalog are written so that they can be read again. -/
structure Restorable {α : Type} (write : α → Json) (readOne : Nat → Draft → Except ReadError α) :
    Prop where
  integral : ∀ a, (write a).Integral
  depth_lt : ∀ a, (write a).depth < Json.maxDepth
  read_draft : ∀ a, readOne (Json.maxDepth - 1) (write a).draft = .ok a

namespace Restorable

variable {α : Type} {write : α → Json} {readOne : Nat → Draft → Except ReadError α}

theorem integral_toJson (h : Restorable write readOne) (c : Catalog α) :
    (c.toJson write).Integral := by
  apply Json.integralMembers_iff.2
  intro member hmember
  obtain ⟨e, he, rfl⟩ := List.mem_map.1 hmember
  exact h.integral e.2

theorem depth_toJson_le (h : Restorable write readOne) (c : Catalog α) :
    (c.toJson write).depth ≤ Json.maxDepth := by
  apply Nat.succ_le_succ
  apply Json.membersDepth_le
  intro member hmember
  obtain ⟨e, he, rfl⟩ := List.mem_map.1 hmember
  exact Nat.le_of_lt_succ (h.depth_lt e.2)

theorem read_fileText (h : Restorable write readOne) (c : Catalog α) (layout : Layout) :
    Catalog.ofText readOne (fileText layout (c.toJson write)) = .ok c := by
  have hread : ∀ e ∈ c.entries, readOne (Json.maxDepth - 1) (write e.2).draft = .ok e.2 :=
    fun e _ => h.read_draft e.2
  have hmembers := Json.readNamed_draft_foldl Catalog.insert hread Catalog.empty
  have hentries : c.entries.foldl (fun all e => all.insert e.1 e.2) Catalog.empty = c :=
    c.insertAll_entries
  rw [hentries] at hmembers
  rw [Catalog.ofText, Json.readObject, Json.readDocument_eq_ok,
    Json.scan_fileText (h.integral_toJson c)]
  exact ⟨hmembers, rfl⟩

theorem namesAscend (h : Restorable write readOne) (c : Catalog α) (layout : Layout) :
    Json.NamesAscend (fileText layout (c.toJson write)) := by
  have hraw := Json.rawOfText_fileText (h.integral_toJson c) (h.depth_toJson_le c) layout
  refine ⟨_, hraw, ?_⟩
  rw [List.map_map, List.pairwise_map]
  exact c.sorted.imp Text.bytes_lt_bytes

end Restorable

/-! ### Entries and texts -/

theorem Json.readText_draft (s : String) : Draft.readText (Json.string s).draft = .ok s := by
  rw [draft, Draft.readText, read_lexemeOf, mapError_ok]

theorem restorable_string : Restorable Json.string fun _ => Draft.readText where
  integral _ := trivial
  depth_lt _ := Nat.zero_lt_succ _
  read_draft s := Json.readText_draft s

namespace CatalogEntry

/-- An entry is read from the record of its message and, if it has one, its description. -/
theorem read_draft (e : CatalogEntry) (depth : Nat) : read (depth + 1) e.toJson.draft = .ok e := by
  have hmessage : reader.readFirst depth (Json.string e.message).draft = .ok e.message :=
    Json.readText_draft e.message
  have hdescription : ∀ d, e.description.map some = some d →
      reader.readSecond depth (d.elim Json.null Json.string).draft = .ok d := by
    intro d hd
    obtain ⟨d, -, rfl⟩ := Option.map_eq_some_iff.1 hd
    change (Draft.readText (Json.string d).draft).map some = _
    rw [Json.readText_draft]
    rfl
  have hread := reader.read_draft (by decide) hmessage (fun d => d.elim Json.null Json.string)
    hdescription
  rw [Option.map_map] at hread
  have hjoin : (e.description.map some).join = e.description := by
    cases e.description <;> rfl
  have hentry : read (depth + 1) e.toJson.draft =
      .ok ⟨e.message, (e.description.map some).join⟩ := congrArg (Except.map _) hread
  rw [hentry, hjoin]

theorem restorable : Restorable toJson read where
  integral e := by
    obtain ⟨message, _ | description⟩ := e
    · exact ⟨trivial, trivial⟩
    · exact ⟨trivial, trivial, trivial⟩
  depth_lt e := by
    obtain ⟨message, _ | description⟩ := e
    · exact Nat.succ_lt_succ (Nat.zero_lt_succ _)
    · exact Nat.succ_lt_succ (Nat.zero_lt_succ _)
  read_draft e := e.read_draft _

end CatalogEntry

namespace Catalog

/-- What is written of a catalog, with or without blanks, is read as that catalog again, and its ids
ascend by their bytes. -/
theorem ofText_fileText :
    (∀ (c : Catalog CatalogEntry) (layout : Layout),
      ofText CatalogEntry.read (fileText layout (c.toJson CatalogEntry.toJson)) = .ok c ∧
        Json.NamesAscend (fileText layout (c.toJson CatalogEntry.toJson))) ∧
    ∀ (c : Catalog String) (layout : Layout),
      ofText (fun _ => Draft.readText) (fileText layout (c.toJson Json.string)) = .ok c ∧
        Json.NamesAscend (fileText layout (c.toJson Json.string)) := by
  constructor
  · intro c layout
    have hentry := CatalogEntry.restorable
    exact ⟨hentry.read_fileText c layout, hentry.namesAscend c layout⟩
  · intro c layout
    have hstring := restorable_string
    exact ⟨hstring.read_fileText c layout, hstring.namesAscend c layout⟩

end Catalog

end MessageFormat
