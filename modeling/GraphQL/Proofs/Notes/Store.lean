import GraphQL.Demo.NoteStore
import GraphQL.Proofs.Checks
import Mathlib.Data.List.Perm.Basic

/-!
# Creating notes

However many notes were created in the seeded store, their identifiers are those of the numbers from
one up to the next one, each of them once (`NoteStore.Numbered`). So the identifier of a new note is
fresh, a note is found under its identifier for good, and it stays where it is: creating notes only
ever adds to the notes of the users they are created for (`NoteStore.createNote_fresh`).

Identifiers are told apart although numbers of different lengths are filled up with zeros: the
digits of an identifier read back as its number (`Note.Names`).
-/

set_option autoImplicit false

namespace GraphQL

/-- The digits of a number that is not zero start with another digit than zero. -/
theorem head?_toDigits_ne_zero {number : Nat} (positive : 0 < number) :
    (Nat.toDigits 10 number).head? ≠ some '0' := by
  induction number using Nat.strongRecOn with
  | ind number ih =>
    by_cases small : number < 10
    · have digits : ∀ digit < 10, 0 < digit → [digit.digitChar].head? ≠ some '0' := by decide
      rw [Nat.toDigits_of_lt_base small]
      exact digits number small positive
    · have large : 10 ≤ number := Nat.le_of_not_lt small
      rw [Nat.toDigits_of_base_le (by decide) large,
        List.head?_append_of_ne_nil _ Nat.toDigits_ne_nil]
      exact ih (number / 10) (Nat.div_lt_self positive (by decide)) (Nat.div_pos large (by decide))

namespace Note

/-- What the identifier of a number looks like: its decimal digits, at least three of them, with
zeros in front only where there would be less. -/
def Names (text : String) (number : Nat) : Prop :=
  ∃ digits : List Char, text.toList = 'n' :: '-' :: digits ∧ (∀ c ∈ digits, c.isDigit = true) ∧
    3 ≤ digits.length ∧ (3 < digits.length → digits.head? ≠ some '0') ∧
    Nat.ofDigitChars 10 digits 0 = number

/-- The identifier of a number names it. -/
theorem names_identifier (number : Nat) : Names (identifier number) number := by
  let digits := Nat.toDigits 10 number
  refine ⟨List.replicate (3 - digits.length) '0' ++ digits, ?_, ?_, ?_, ?_, ?_⟩
  · simp [identifier, digits]
  · intro c member
    rcases List.mem_append.1 member with zero | digit
    · rw [List.eq_of_mem_replicate zero]
      rfl
    · exact Nat.isDigit_of_mem_toDigits (by decide) (by decide) digit
  · rw [List.length_append, List.length_replicate]
    omega
  · intro long
    rw [List.length_append, List.length_replicate] at long
    have unfilled : 3 - digits.length = 0 := by omega
    rw [unfilled, List.replicate_zero, List.nil_append]
    refine head?_toDigits_ne_zero (Nat.pos_of_ne_zero ?_)
    rintro rfl
    exact absurd long (by decide)
  · rw [Nat.ofDigitChars_append, Nat.ofDigitChars_replicate_zero, Nat.mul_zero]
    exact Nat.ofDigitChars_ten_toDigits

example : identifier 7 = "n-007" ∧ identifier 1024 = "n-1024" := by cbv

/-- An identifier is that of one number only. -/
theorem Names.unique {text : String} {number other : Nat} (h : Names text number)
    (h' : Names text other) : number = other := by
  obtain ⟨digits, spelled, -, -, -, rfl⟩ := h
  obtain ⟨digits', spelled', -, -, -, rfl⟩ := h'
  rw [spelled] at spelled'
  cases spelled'
  rfl

/-- No two numbers have the same identifier. -/
theorem identifier_injective {number other : Nat} (same : identifier number = identifier other) :
    number = other :=
  (names_identifier number).unique (same ▸ names_identifier other)

end Note

namespace NoteStore

/-- The store after some notes were created one after the other, each for a user and with a
text. -/
def createAll (store : NoteStore) : List (String × String) → NoteStore
  | [] => store
  | (userID, data) :: rest => (store.createNote userID data).1.createAll rest

/-- The identifiers of all notes of a store, user by user. -/
def noteIDs (store : NoteStore) : List String :=
  store.allNotes.map (·.noteID)

/-- The identifiers of the notes are those of the numbers that were given out, each once. -/
structure Numbered (store : NoteStore) : Prop where
  started : 0 < store.nextNote
  ids : store.noteIDs.Perm ((List.range' 1 (store.nextNote - 1)).map Note.identifier)

section

variable {entries : List (User × List Note)} {userID : String} {note : Note}

/-- Adding a note changes the entry of its user and no other one. -/
theorem find?_append (other : String) :
    (append userID note entries).find? (fun entry => entry.1.userID == other) =
      if other = userID then
        (entries.find? fun entry => entry.1.userID == other).map
          fun entry => (entry.1, entry.2 ++ [note])
      else entries.find? fun entry => entry.1.userID == other := by
  induction entries with
  | nil => simp [append]
  | cons entry rest ih =>
    by_cases own : entry.1.userID = userID
    · by_cases same : other = userID
      · simp [append, own, same]
      · have differs : userID ≠ other := fun h => same h.symm
        simp [append, own, same, differs]
    · by_cases here : entry.1.userID = other
      · have same : other ≠ userID := here ▸ own
        simp [append, here, same]
      · simp [append, own, here, ih]

/-- Adding a note to the notes of a user that is there adds one to all notes. -/
theorem perm_flatMap_append (known : (entries.find? fun entry => entry.1.userID == userID).isSome) :
    ((append userID note entries).flatMap Prod.snd).Perm (note :: entries.flatMap Prod.snd) := by
  induction entries with
  | nil => cases known
  | cons entry rest ih =>
    by_cases own : entry.1.userID = userID
    · simp only [append, own, beq_self_eq_true, if_true, List.flatMap_cons, List.append_assoc]
      exact List.perm_middle
    · have later : (rest.find? fun entry => entry.1.userID == userID).isSome := by
        rwa [List.find?_cons_of_neg (by simpa using own)] at known
      have own' : ¬ (entry.1.userID == userID) = true := by simpa using own
      simp only [append, if_neg own', List.flatMap_cons]
      exact ((ih later).append_left entry.2).trans List.perm_middle

end

variable {store : NoteStore} {userID data : String}

/-- The notes of a user are among all notes. -/
theorem mem_allNotes_of_mem_notes {note : Note} (member : note ∈ store.notes userID) :
    note ∈ store.allNotes := by
  rw [notes] at member
  cases found : store.entry? userID with
  | none =>
    rw [found] at member
    cases member
  | some entry =>
    rw [found] at member
    exact List.mem_flatMap.2 ⟨entry, List.mem_of_find?_eq_some found, member⟩

/-- Each user has an entry, and nobody else has. -/
theorem isSome_entry?_iff : (store.entry? userID).isSome = (store.user? userID).isSome := by
  rw [user?, Option.isSome_map]

/-- Without such a user nothing happens. -/
theorem createNote_of_unknown (unknown : (store.user? userID).isSome = false) :
    store.createNote userID data = (store, none) := by
  rw [createNote, isSome_entry?_iff, unknown]
  rfl

/-- The store after a note was created for a user that is there. -/
theorem fst_createNote (known : (store.user? userID).isSome = true) :
    (store.createNote userID data).1 =
      { entries := append userID { noteID := Note.identifier store.nextNote, data } store.entries
        nextNote := store.nextNote + 1 } := by
  rw [createNote, isSome_entry?_iff, known]
  rfl

/-- Creating a note leaves the users as they are. -/
theorem users_createNote (store : NoteStore) (userID data : String) :
    (store.createNote userID data).1.users = store.users := by
  cases known : (store.user? userID).isSome with
  | true =>
    rw [fst_createNote known]
    exact map_fst_append userID _ store.entries
  | false => rw [createNote_of_unknown known]

/-- Creating a note leaves each user to be found as before. -/
theorem user?_createNote (store : NoteStore) (userID data other : String) :
    (store.createNote userID data).1.user? other = store.user? other := by
  have byUsers : ∀ store : NoteStore,
      store.user? other = store.users.find? fun user => user.userID == other := by
    intro store
    rw [user?, entry?, users, List.find?_map]
    rfl
  rw [byUsers, byUsers, users_createNote]

/-- The notes of a user after a note was created. -/
theorem notes_createNote (known : (store.user? userID).isSome = true) (data other : String) :
    (store.createNote userID data).1.notes other =
      if other = userID then
        store.notes other ++ [{ noteID := Note.identifier store.nextNote, data }]
      else store.notes other := by
  rw [fst_createNote known, notes, entry?, find?_append]
  by_cases same : other = userID
  · subst same
    rw [if_pos rfl, if_pos rfl]
    obtain ⟨entry, found⟩ := Option.isSome_iff_exists.1 (isSome_entry?_iff.trans known)
    rw [notes, found]
    unfold entry? at found
    rw [found]
    rfl
  · rw [if_neg same, if_neg same]
    rfl

/-- Where a note is created for a user that is there, all notes are those of before and the new
one. -/
theorem perm_allNotes_createNote (known : (store.user? userID).isSome = true) (data : String) :
    (store.createNote userID data).1.allNotes.Perm
      ({ noteID := Note.identifier store.nextNote, data } :: store.allNotes) := by
  rw [fst_createNote known]
  exact perm_flatMap_append (isSome_entry?_iff.trans known)

namespace Numbered

/-- No two notes have the same identifier. -/
theorem nodup_noteIDs (numbered : store.Numbered) : store.noteIDs.Nodup := by
  rw [numbered.ids.nodup_iff]
  exact (List.nodup_range' 1).map fun _ _ same => Note.identifier_injective same

/-- The identifier of the next number was not given out yet. -/
theorem fresh (numbered : store.Numbered) : Note.identifier store.nextNote ∉ store.noteIDs := by
  rw [numbered.ids.mem_iff]
  intro member
  obtain ⟨number, given, same⟩ := List.mem_map.1 member
  have here := Note.identifier_injective same
  have started := numbered.started
  rw [List.mem_range'_1] at given
  omega

/-- Creating a note gives out the next number, if it is created at all. -/
theorem createNote (numbered : store.Numbered) (userID data : String) :
    (store.createNote userID data).1.Numbered := by
  cases known : (store.user? userID).isSome with
  | false => rwa [createNote_of_unknown known]
  | true =>
    have next : (store.createNote userID data).1.nextNote = store.nextNote + 1 := by
      rw [fst_createNote known]
    refine ⟨by omega, ?_⟩
    have grown := (perm_allNotes_createNote known data).map (·.noteID)
    have numbers : List.range' 1 (store.nextNote + 1 - 1) =
        List.range' 1 (store.nextNote - 1) ++ [store.nextNote] := by
      obtain ⟨given, last⟩ := Nat.exists_eq_add_one.2 numbered.started
      rw [last, Nat.add_sub_cancel, Nat.add_sub_cancel, List.range'_1_concat, Nat.add_comm]
    rw [next, numbers, List.map_append]
    refine grown.trans ((numbered.ids.cons _).trans ?_)
    exact (List.perm_append_singleton _ _).symm

/-- A note is found under its identifier. -/
theorem note?_eq_some (numbered : store.Numbered) {note : Note} (member : note ∈ store.allNotes) :
    store.note? note.noteID = some note :=
  (Checks.find?_key_eq_some_iff numbered.nodup_noteIDs).2 ⟨member, rfl⟩

/-- However many notes are created, their identifiers are those of the numbers given out. -/
theorem createAll (numbered : store.Numbered) (calls : List (String × String)) :
    (store.createAll calls).Numbered := by
  induction calls generalizing store with
  | nil => exact numbered
  | cons call rest ih => exact ih (numbered.createNote call.1 call.2)

end Numbered

/-- Creating a note for a user that is not there makes no difference. -/
theorem createAll_filter_known (store : NoteStore) (calls : List (String × String)) :
    store.createAll (calls.filter fun call => (store.user? call.1).isSome) =
      store.createAll calls := by
  induction calls generalizing store with
  | nil => rfl
  | cons call rest ih =>
    have later := ih (store.createNote call.1 call.2).1
    simp only [user?_createNote] at later
    cases known : (store.user? call.1).isSome with
    | true =>
      rw [List.filter_cons, if_pos known]
      exact later
    | false =>
      rw [List.filter_cons, known, createAll, ← later, createNote_of_unknown known]
      rfl

/-- Creating notes takes none away. -/
theorem subset_allNotes_createAll (store : NoteStore) (calls : List (String × String)) :
    store.allNotes ⊆ (store.createAll calls).allNotes := by
  induction calls generalizing store with
  | nil => exact List.Subset.refl _
  | cons call rest ih =>
    refine List.Subset.trans ?_ (ih _)
    cases known : (store.user? call.1).isSome with
    | false =>
      rw [createNote_of_unknown known]
      exact List.Subset.refl _
    | true =>
      intro note member
      exact (perm_allNotes_createNote known call.2).mem_iff.2 (List.mem_cons_of_mem _ member)

/-- The store as it is seeded has given out its first numbers. -/
theorem numbered_seeded : seeded.Numbered :=
  ⟨by decide, by decide +kernel⟩

/-- A note that is created for a user that is there is the one that comes back. -/
theorem snd_createNote (numbered : store.Numbered) (known : (store.user? userID).isSome = true) :
    (store.createNote userID data).2 =
      some { noteID := Note.identifier store.nextNote, data } := by
  have back : (store.createNote userID data).2 =
      ((store.createNote userID data).1.notes userID).find?
        fun note => note.noteID == Note.identifier store.nextNote := by
    rw [createNote, isSome_entry?_iff, known]
    rfl
  have old : (store.notes userID).find?
      (fun note => note.noteID == Note.identifier store.nextNote) = none := by
    rw [List.find?_eq_none]
    intro note member same
    refine numbered.fresh (List.mem_map.2 ⟨note, ?_, by simpa using same⟩)
    exact mem_allNotes_of_mem_notes member
  rw [back, notes_createNote known, if_pos rfl, List.find?_append, old, Option.none_or]
  simp

/-- Identifiers are never reused and no note is lost. In every store that creating notes leads to
from the seeded one, the identifiers are those of the numbers from one up to the next one, each
once, written with at least three digits. A note is created if and only if its user is there; it
has the given text and a fresh identifier, comes last among the notes of its user, leaves those of
the others as they were, and is found under its identifier from then on, like all notes before it.
Where none is created, nothing changes. -/
theorem createNote_fresh (calls : List (String × String)) (userID data : String) :
    let store := seeded.createAll calls
    let later := (store.createNote userID data).1
    let created := (store.createNote userID data).2
    (store.noteIDs.Nodup ∧
      (∃ count, store.nextNote = count + 1 ∧
        store.noteIDs.Perm ((List.range' 1 count).map Note.identifier)) ∧
      ∀ number, Note.Names (Note.identifier number) number) ∧
    (created.isSome = true ↔ (store.user? userID).isSome = true) ∧
    (∀ note, created = some note →
      note.data = data ∧ note.noteID = Note.identifier store.nextNote ∧
        note.noteID ∉ store.noteIDs ∧ later.users = store.users ∧
        later.notes userID = store.notes userID ++ [note] ∧
        (∀ other, other ≠ userID → later.notes other = store.notes other) ∧
        ∀ more, (later.createAll more).note? note.noteID = some note) ∧
    (created = none → later = store) ∧
    ∀ note ∈ store.allNotes, ∀ more, (store.createAll more).note? note.noteID = some note := by
  intro store later created
  have numbered : store.Numbered := numbered_seeded.createAll calls
  -- no note is taken away and no identifier is given out again
  have found : ∀ {store : NoteStore}, store.Numbered → ∀ note ∈ store.allNotes, ∀ more,
      (store.createAll more).note? note.noteID = some note :=
    fun numbered note member more =>
      (numbered.createAll more).note?_eq_some (subset_allNotes_createAll _ more member)
  refine ⟨⟨numbered.nodup_noteIDs, ?_, Note.names_identifier⟩, ?_, ?_, ?_, found numbered⟩
  · obtain ⟨count, next⟩ := Nat.exists_eq_add_one.2 numbered.started
    have ids := numbered.ids
    rw [next, Nat.add_sub_cancel] at ids
    exact ⟨count, next, ids⟩
  · cases known : (store.user? userID).isSome with
    | true => simp [created, snd_createNote numbered known]
    | false => simp [created, createNote_of_unknown known]
  · intro note given
    cases known : (store.user? userID).isSome with
    | false => simp [created, createNote_of_unknown known] at given
    | true =>
      obtain rfl : { noteID := Note.identifier store.nextNote, data } = note :=
        Option.some.inj ((snd_createNote numbered known).symm.trans given)
      have notes := notes_createNote known data
      refine ⟨rfl, rfl, numbered.fresh, users_createNote store userID data,
        (notes userID).trans (if_pos rfl),
        fun other differs => (notes other).trans (if_neg differs), ?_⟩
      exact found (numbered.createNote userID data) _
        ((perm_allNotes_createNote known data).mem_iff.2 List.mem_cons_self)
  · intro nothing
    cases known : (store.user? userID).isSome with
    | true =>
      rw [show created = _ from snd_createNote numbered known] at nothing
      cases nothing
    | false => exact congrArg Prod.fst (createNote_of_unknown known)

/-- A second note has an identifier of its own, and keeps it when there is a third one. -/
theorem createNote_fresh_seeded :
    let store := seeded.createAll [("u-001", "x")]
    ∃ note, (store.createNote "u-002" "y").2 = some note ∧ note.noteID ∉ store.noteIDs ∧
      ((store.createNote "u-002" "y").1.createAll [("u-001", "z")]).note? note.noteID =
        some note := by
  intro store
  obtain ⟨-, created, fresh, -⟩ := createNote_fresh [("u-001", "x")] "u-002" "y"
  obtain ⟨note, given⟩ := Option.isSome_iff_exists.1 (created.2 (by decide +kernel))
  obtain ⟨-, -, new, -, -, -, stays⟩ := fresh note given
  exact ⟨note, given, new, stays _⟩

end NoteStore

end GraphQL
