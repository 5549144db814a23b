import PstForge.Job.PartAccounts

/-! # Publications that are cut short

A publication changes the ledger and three directories one after the other. Wherever it is
cut short, by an interruption, a failing access or the end of the process, the ledger and the
files still tell how far it came, and opening the job completes it or takes it back.
-/

namespace PstForge.Job

open PstForge.Foundation PstForge.Catalog

section Names

theorem trimEndMatches_prefix (suffix : Text) (fuel : Nat) :
    ∀ text : Text, trimEndMatches suffix fuel text <+: text := by
  induction fuel with
  | zero => exact fun _ => List.prefix_rfl
  | succ fuel ih =>
      intro text
      unfold trimEndMatches
      split
      · exact (ih _).trans (List.take_prefix _ _)
      · exact List.prefix_rfl

theorem validLeafName_iff {name : Text} :
    validLeafName name = true ↔
      name ≠ [] ∧ '/' ∉ name ∧ name ≠ ".".toList ∧ name ≠ "..".toList := by
  unfold validLeafName
  simp only [Bool.and_eq_true, Bool.not_eq_true', List.isEmpty_eq_false_iff, decide_eq_true_eq,
    and_assoc]
  rw [← Bool.not_eq_true, List.contains_iff_mem]

/-- The staged description of a part is a file that opening the job may remove. -/
theorem stagedSidecarFilename_removable {part : PublishedPart}
    (record : validatePartRecord part = .ok ()) :
    validLeafName part.stagedSidecarFilename = true ∧
      ".partial".toList.isSuffixOf part.stagedSidecarFilename = true := by
  unfold validatePartRecord at record
  rw [refuse_eq_ok, Bool.or_eq_true, not_or, Bool.or_eq_true, not_or, Bool.or_eq_true,
    not_or] at record
  have valid := record.1.1.2
  rw [Bool.not_eq_true', Bool.not_eq_false] at valid
  obtain ⟨-, noSlash, -⟩ := validLeafName_iff.mp valid
  constructor
  · have trimmed := trimEndMatches_prefix ".pst".toList part.filename.length part.filename
    have slashes : '/' ∉ part.stagedSidecarFilename := by
      unfold PublishedPart.stagedSidecarFilename PublishedPart.sidecarFilename
      rw [List.mem_append, List.mem_append]
      rintro ((inside | inside) | inside)
      · exact noSlash (trimmed.subset inside)
      · exact absurd inside (by decide)
      · exact absurd inside (by decide)
    have long : 13 ≤ part.stagedSidecarFilename.length := by
      unfold PublishedPart.stagedSidecarFilename PublishedPart.sidecarFilename
      rw [List.length_append, List.length_append]
      have json : ".json".toList.length = 5 := rfl
      have suffix : ".partial".toList.length = 8 := rfl
      omega
    rw [validLeafName_iff]
    refine ⟨fun none => ?_, slashes, fun dot => ?_, fun dots => ?_⟩
    · rw [none] at long
      exact absurd long (by decide)
    · rw [dot] at long
      exact absurd long (by decide)
    · rw [dots] at long
      exact absurd long (by decide)
  · rw [List.isSuffixOf_iff_suffix]
    exact List.suffix_append _ _

/-- The staged description of a part is not taken for other work in progress. -/
theorem apart_of_named {part : PublishedPart} {name : Text}
    (named : ¬ ".json.partial".toList <:+ name) : part.stagedSidecarFilename ≠ name := by
  intro same
  apply named
  rw [← same]
  unfold PublishedPart.stagedSidecarFilename PublishedPart.sidecarFilename
  rw [List.append_assoc]
  exact List.suffix_append _ _

end Names

section Files

/-- What a place has under a name. -/
def fileAt (files : Place → Directory) (place : Place) (name : Text) : Option StoredFile :=
  (files place).lookup name

def insertFile (files : Place → Directory) (place : Place) (name : Text) (file : StoredFile) :
    Place → Directory :=
  Function.update files place ((files place).insert name file)

def eraseFile (files : Place → Directory) (place : Place) (name : Text) : Place → Directory :=
  Function.update files place ((files place).erase name)

variable {files : Place → Directory} {place other : Place} {name otherName : Text}
variable {file : StoredFile}

theorem fileAt_insertFile : fileAt (insertFile files place name file) other otherName =
    if other = place ∧ otherName = name then some file else fileAt files other otherName := by
  unfold fileAt insertFile
  by_cases here : other = place
  · subst here
    rw [Function.update_self]
    by_cases same : otherName = name
    · rw [if_pos ⟨rfl, same⟩, same, AList.lookup_insert]
    · rw [if_neg fun both => same both.2, AList.lookup_insert_ne same]
  · rw [if_neg fun both => here both.1, Function.update_of_ne here]

theorem fileAt_eraseFile : fileAt (eraseFile files place name) other otherName =
    if other = place ∧ otherName = name then none else fileAt files other otherName := by
  unfold fileAt eraseFile
  by_cases here : other = place
  · subst here
    rw [Function.update_self]
    by_cases same : otherName = name
    · rw [if_pos ⟨rfl, same⟩, same, AList.lookup_erase]
    · rw [if_neg fun both => same both.2, AList.lookup_erase_ne same]
  · rw [if_neg fun both => here both.1, Function.update_of_ne here]

theorem insertFile_insertFile {again : StoredFile} :
    insertFile (insertFile files place name file) place name again =
      insertFile files place name again := by
  unfold insertFile
  rw [Function.update_self, Function.update_idem, AList.insert_insert]

variable (around : JobSurroundings)

/-- Whether a place has a part under a name. -/
def PartStored (files : Place → Directory) (place : Place) (name : Text) (part : PublishedPart)
    (sidecar : PartSidecar) : Prop :=
  ∃ file, fileAt files place name = some file ∧
    checkPartArtifact around.sha256 part sidecar file = .ok ()

/-- Whether a place has the description of a part under a name. -/
def SidecarStored (files : Place → Directory) (place : Place) (name : Text)
    (sidecar : PartSidecar) : Prop :=
  ∃ file, fileAt files place name = some file ∧
    checkSidecarArtifact around.parse sidecar file = .ok ()

/-- How far the files of an intent are. -/
inductive Stage (files : Place → Directory) (intent : PublicationIntent) : Prop
  | recorded (part : fileAt files .parts intent.part.filename = none)
      (sidecar : fileAt files .manifests intent.part.sidecarFilename = none)
      (staged : SidecarStored around files .staging intent.part.stagedSidecarFilename intent.sidecar)
  | moved (part : PartStored around files .parts intent.part.filename intent.part intent.sidecar)
      (sidecar : fileAt files .manifests intent.part.sidecarFilename = none)
      (staged : SidecarStored around files .staging intent.part.stagedSidecarFilename intent.sidecar)
  | complete (part : PartStored around files .parts intent.part.filename intent.part intent.sidecar)
      (sidecar : SidecarStored around files .manifests intent.part.sidecarFilename intent.sidecar)

/-- A file that opening the job takes out of the work in progress. -/
def Removable (name : Text) (file : StoredFile) : Prop :=
  file.isRegular = true ∧ file.isPrivate = true ∧ validLeafName name = true ∧
    ".partial".toList.isSuffixOf name = true

/-- The files are those that the ledger tells of. -/
structure FilesSound (ledger : PublicationLedger) (files : Place → Directory) : Prop where
  published : ∀ row ∈ ledger.parts,
    PartStored around files .parts row.part.filename row.part row.sidecar ∧
      SidecarStored around files .manifests row.part.sidecarFilename row.sidecar
  intended : ∀ intent ∈ ledger.intents, Stage around files intent
  parts : ∀ name file, fileAt files .parts name = some file →
    name ∈ ledger.publications.map (·.filename)
  manifests : ∀ name file, fileAt files .manifests name = some file →
    name ∈ ledger.publications.map (·.sidecarFilename)
  staging : ∀ name file, fileAt files .staging name = some file → Removable name file

/-- A job whose ledger and files agree. -/
structure StoreSound (store : JobStore) : Prop where
  ledger : LedgerSound store.ledger
  files : FilesSound around store.ledger store.files

variable {around} {ledger : PublicationLedger} {intent : PublicationIntent}

theorem PartStored.congr {part : PublishedPart} {sidecar : PartSidecar}
    {next : Place → Directory} (stored : PartStored around files place name part sidecar)
    (same : fileAt next place name = fileAt files place name) :
    PartStored around next place name part sidecar := by
  obtain ⟨file, found, checked⟩ := stored
  exact ⟨file, same.trans found, checked⟩

theorem SidecarStored.congr {sidecar : PartSidecar} {next : Place → Directory}
    (stored : SidecarStored around files place name sidecar)
    (same : fileAt next place name = fileAt files place name) :
    SidecarStored around next place name sidecar := by
  obtain ⟨file, found, checked⟩ := stored
  exact ⟨file, same.trans found, checked⟩

/-- An intent is as far as it was when its own names are not touched. -/
theorem Stage.congr {next : Place → Directory} (stage : Stage around files intent)
    (part : fileAt next .parts intent.part.filename = fileAt files .parts intent.part.filename)
    (sidecar : fileAt next .manifests intent.part.sidecarFilename =
      fileAt files .manifests intent.part.sidecarFilename)
    (staged : fileAt next .staging intent.part.stagedSidecarFilename =
      fileAt files .staging intent.part.stagedSidecarFilename) : Stage around next intent := by
  cases stage with
  | recorded noPart noSidecar ready =>
      exact .recorded (part.trans noPart) (sidecar.trans noSidecar) (ready.congr staged)
  | moved stored noSidecar ready =>
      exact .moved (stored.congr part) (sidecar.trans noSidecar) (ready.congr staged)
  | complete stored described => exact .complete (stored.congr part) (described.congr sidecar)

/-- The work in progress can change, except for the descriptions that intents need. -/
theorem FilesSound.restage {next : Place → Directory} (sound : FilesSound around ledger files)
    (elsewhere : ∀ place name, place ≠ .staging → fileAt next place name = fileAt files place name)
    (kept : ∀ intent ∈ ledger.intents, fileAt next .staging intent.part.stagedSidecarFilename =
      fileAt files .staging intent.part.stagedSidecarFilename)
    (staging : ∀ name file, fileAt next .staging name = some file → Removable name file) :
    FilesSound around ledger next := by
  refine {
    published := fun row member => ?_
    intended := fun intent member => ?_
    parts := fun other found there => ?_
    manifests := fun other found there => ?_
    staging := staging }
  · obtain ⟨stored, described⟩ := sound.published row member
    exact ⟨stored.congr (elsewhere _ _ Place.noConfusion),
      described.congr (elsewhere _ _ Place.noConfusion)⟩
  · apply (sound.intended intent member).congr
    · exact elsewhere _ _ Place.noConfusion
    · exact elsewhere _ _ Place.noConfusion
    · exact kept intent member
  · rw [elsewhere _ _ Place.noConfusion] at there
    exact sound.parts other found there
  · rw [elsewhere _ _ Place.noConfusion] at there
    exact sound.manifests other found there

theorem FilesSound.insertStaged (sound : FilesSound around ledger files)
    (removable : Removable name file)
    (free : ∀ intent ∈ ledger.intents, intent.part.stagedSidecarFilename ≠ name) :
    FilesSound around ledger (insertFile files .staging name file) := by
  apply sound.restage
  · intro place other different
    rw [fileAt_insertFile, if_neg fun both => different both.1]
  · intro intent member
    rw [fileAt_insertFile, if_neg fun both => free intent member both.2]
  · intro other found there
    rw [fileAt_insertFile] at there
    split at there
    case isTrue same =>
      cases there
      rw [same.2]
      exact removable
    case isFalse => exact sound.staging other found there

theorem FilesSound.eraseStaged (sound : FilesSound around ledger files)
    (free : ∀ intent ∈ ledger.intents, intent.part.stagedSidecarFilename ≠ name) :
    FilesSound around ledger (eraseFile files .staging name) := by
  apply sound.restage
  · intro place other different
    rw [fileAt_eraseFile, if_neg fun both => different both.1]
  · intro intent member
    rw [fileAt_eraseFile, if_neg fun both => free intent member both.2]
  · intro other found there
    rw [fileAt_eraseFile] at there
    split at there
    case isTrue => cases there
    case isFalse => exact sound.staging other found there

theorem sidecarFilename_ne {part otherPart : PublishedPart}
    (different : part.sidecarFilename ≠ otherPart.sidecarFilename) :
    part.filename ≠ otherPart.filename ∧
      part.stagedSidecarFilename ≠ otherPart.stagedSidecarFilename := by
  constructor
  · intro same
    apply different
    unfold PublishedPart.sidecarFilename
    rw [same]
  · intro same
    exact different (List.append_cancel_right same)

/-- The names of an intent are its own. -/
theorem LedgerSound.ownNames (sound : LedgerSound ledger) (member : intent ∈ ledger.intents) :
    (∀ row ∈ ledger.parts, row.part.sidecarFilename ≠ intent.part.sidecarFilename) ∧
      ∀ other ∈ (ledger.deleteIntent intent.part.index).intents,
        other.part.sidecarFilename ≠ intent.part.sidecarFilename := by
  have names := sound.names
  rw [PublicationLedger.publications, List.map_append, List.map_map, List.map_map] at names
  obtain ⟨-, intents, apart⟩ := List.nodup_append'.mp names
  constructor
  · intro row there same
    exact apart (List.mem_map_of_mem there) (List.mem_map.mpr ⟨intent, member, same.symm⟩)
  · have perm := (sound.intents_perm member).map fun intent => intent.part.sidecarFilename
    have fresh := (List.nodup_cons.mp (perm.nodup_iff.mp intents)).1
    intro other there same
    exact fresh (List.mem_map.mpr ⟨other, there, same⟩)

theorem LedgerSound.intent_cases (sound : LedgerSound ledger) (member : intent ∈ ledger.intents)
    {another : PublicationIntent} (there : another ∈ ledger.intents) :
    another = intent ∨ another ∈ (ledger.deleteIntent intent.part.index).intents :=
  List.mem_cons.mp ((sound.intents_perm member).mem_iff.mp there)

/-- The files of an intent can change as long as it is somewhere on its way. -/
theorem FilesSound.advance {next : Place → Directory} (sound : FilesSound around ledger files)
    (accounts : LedgerSound ledger) (member : intent ∈ ledger.intents)
    (stage : Stage around next intent)
    (parts : ∀ name ≠ intent.part.filename, fileAt next .parts name = fileAt files .parts name)
    (manifests : ∀ name ≠ intent.part.sidecarFilename,
      fileAt next .manifests name = fileAt files .manifests name)
    (kept : ∀ another ∈ (ledger.deleteIntent intent.part.index).intents,
      fileAt next .staging another.part.stagedSidecarFilename =
        fileAt files .staging another.part.stagedSidecarFilename)
    (staging : ∀ name file, fileAt next .staging name = some file →
      fileAt files .staging name = some file) : FilesSound around ledger next := by
  obtain ⟨rows, others⟩ := accounts.ownNames member
  have mine : intent.part ∈ ledger.publications :=
    List.mem_append_right _ (List.mem_map_of_mem member)
  refine {
    published := fun row there => ?_
    intended := fun another there => ?_
    parts := fun name file there => ?_
    manifests := fun name file there => ?_
    staging := fun name file there => sound.staging name file (staging name file there) }
  · obtain ⟨stored, described⟩ := sound.published row there
    have different := rows row there
    exact ⟨stored.congr (parts _ (sidecarFilename_ne different).1),
      described.congr (manifests _ different)⟩
  · rcases accounts.intent_cases member there with rfl | other
    · exact stage
    · have different := others another other
      exact (sound.intended another there).congr (parts _ (sidecarFilename_ne different).1)
        (manifests _ different) (kept another other)
  · by_cases own : name = intent.part.filename
    · rw [own]
      exact List.mem_map_of_mem mine
    · rw [parts name own] at there
      exact sound.parts name file there
  · by_cases own : name = intent.part.sidecarFilename
    · rw [own]
      exact List.mem_map_of_mem mine
    · rw [manifests name own] at there
      exact sound.manifests name file there

/-- The part of an intent is moved to the parts. -/
theorem FilesSound.movePart (sound : FilesSound around ledger files) (accounts : LedgerSound ledger)
    (member : intent ∈ ledger.intents)
    (sidecar : fileAt files .manifests intent.part.sidecarFilename = none)
    (staged : SidecarStored around files .staging intent.part.stagedSidecarFilename intent.sidecar)
    (apart : ∀ another ∈ ledger.intents, another.part.stagedSidecarFilename ≠ name)
    (checked : checkPartArtifact around.sha256 intent.part intent.sidecar file = .ok ()) :
    FilesSound around ledger
      (insertFile (eraseFile files .staging name) .parts intent.part.filename file) := by
  have elsewhere : ∀ place other, ¬ (place = .parts ∧ other = intent.part.filename) →
      ¬ (place = .staging ∧ other = name) →
      fileAt (insertFile (eraseFile files .staging name) .parts intent.part.filename file) place
        other = fileAt files place other := by
    intro place other notNew notOld
    rw [fileAt_insertFile, if_neg notNew, fileAt_eraseFile, if_neg notOld]
  have kept : ∀ another ∈ ledger.intents, fileAt (insertFile (eraseFile files .staging name) .parts
      intent.part.filename file) .staging another.part.stagedSidecarFilename =
      fileAt files .staging another.part.stagedSidecarFilename := fun another there =>
    elsewhere _ _ (fun both => Place.noConfusion both.1) fun both => apart another there both.2
  apply sound.advance accounts member
  · refine .moved ⟨file, ?_, checked⟩ ?_ (staged.congr (kept intent member))
    · rw [fileAt_insertFile, if_pos ⟨rfl, rfl⟩]
    · rw [elsewhere _ _ (fun both => Place.noConfusion both.1) fun both =>
        Place.noConfusion both.1]
      exact sidecar
  · intro other different
    exact elsewhere _ _ (fun both => different both.2) fun both => Place.noConfusion both.1
  · intro other _
    exact elsewhere _ _ (fun both => Place.noConfusion both.1) fun both =>
      Place.noConfusion both.1
  · intro another there
    exact kept another (List.mem_of_mem_filter there)
  · intro other found there
    rw [fileAt_insertFile, if_neg fun both => Place.noConfusion both.1, fileAt_eraseFile] at there
    split at there
    case isTrue => cases there
    case isFalse => exact there

/-- The description of the part of an intent is moved to the manifests. -/
theorem FilesSound.moveSidecar (sound : FilesSound around ledger files)
    (accounts : LedgerSound ledger) (member : intent ∈ ledger.intents)
    (part : PartStored around files .parts intent.part.filename intent.part intent.sidecar)
    (checked : checkSidecarArtifact around.parse intent.sidecar file = .ok ()) :
    FilesSound around ledger (insertFile (eraseFile files .staging
      intent.part.stagedSidecarFilename) .manifests intent.part.sidecarFilename file) := by
  obtain ⟨-, others⟩ := accounts.ownNames member
  have elsewhere : ∀ place other, ¬ (place = .manifests ∧ other = intent.part.sidecarFilename) →
      ¬ (place = .staging ∧ other = intent.part.stagedSidecarFilename) →
      fileAt (insertFile (eraseFile files .staging intent.part.stagedSidecarFilename) .manifests
        intent.part.sidecarFilename file) place other = fileAt files place other := by
    intro place other notNew notOld
    rw [fileAt_insertFile, if_neg notNew, fileAt_eraseFile, if_neg notOld]
  apply sound.advance accounts member
  · refine .complete (part.congr ?_) ⟨file, ?_, checked⟩
    · exact elsewhere _ _ (fun both => Place.noConfusion both.1) fun both =>
        Place.noConfusion both.1
    · rw [fileAt_insertFile, if_pos ⟨rfl, rfl⟩]
  · intro other _
    exact elsewhere _ _ (fun both => Place.noConfusion both.1) fun both =>
      Place.noConfusion both.1
  · intro other different
    exact elsewhere _ _ (fun both => different both.2) fun both => Place.noConfusion both.1
  · intro another there
    exact elsewhere _ _ (fun both => Place.noConfusion both.1) fun both =>
      (sidecarFilename_ne (others another there)).2 both.2
  · intro other found there
    rw [fileAt_insertFile, if_neg fun both => Place.noConfusion both.1, fileAt_eraseFile] at there
    split at there
    case isTrue => cases there
    case isFalse => exact there

/-- An intent whose files are all but moved is recorded. -/
theorem FilesSound.insertIntent (sound : FilesSound around ledger files)
    (stage : Stage around files intent) :
    FilesSound around (ledger.intending intent) files := by
  refine {
    published := sound.published
    intended := fun another there => ?_
    parts := fun name file there => ?_
    manifests := fun name file there => ?_
    staging := sound.staging }
  · rcases List.mem_append.mp there with before | new
    · exact sound.intended another before
    · rw [List.mem_singleton.mp new]
      exact stage
  · rw [publications_intending, List.map_append]
    exact List.mem_append_left _ (sound.parts name file there)
  · rw [publications_intending, List.map_append]
    exact List.mem_append_left _ (sound.manifests name file there)

/-- The part of an intent is in the ledger. -/
theorem FilesSound.publishedIntent (sound : FilesSound around ledger files)
    (accounts : LedgerSound ledger) (member : intent ∈ ledger.intents)
    (part : PartStored around files .parts intent.part.filename intent.part intent.sidecar)
    (sidecar : SidecarStored around files .manifests intent.part.sidecarFilename intent.sidecar) :
    FilesSound around (ledger.published intent) files := by
  have perm := publications_perm accounts member
  refine {
    published := fun row there => ?_
    intended := fun another there => sound.intended another (List.mem_of_mem_filter there)
    parts := fun name file there => ?_
    manifests := fun name file there => ?_
    staging := sound.staging }
  · rcases List.mem_append.mp there with before | new
    · exact sound.published row before
    · rw [List.mem_singleton.mp new]
      exact ⟨part, sidecar⟩
  · exact (perm.map _).mem_iff.mpr (sound.parts name file there)
  · exact (perm.map _).mem_iff.mpr (sound.manifests name file there)

/-- An intent whose part was not moved is dropped. -/
theorem FilesSound.deleteIntent (sound : FilesSound around ledger files)
    (accounts : LedgerSound ledger) (member : intent ∈ ledger.intents)
    (part : fileAt files .parts intent.part.filename = none)
    (sidecar : fileAt files .manifests intent.part.sidecarFilename = none) :
    FilesSound around (ledger.deleteIntent intent.part.index) files := by
  have perm : ledger.publications.Perm
      (intent.part :: (ledger.deleteIntent intent.part.index).publications) := by
    have others := ((accounts.intents_perm member).map (·.part)).append_left
      (ledger.parts.map (·.part))
    exact others.trans List.perm_middle
  refine {
    published := sound.published
    intended := fun another there => sound.intended another (List.mem_of_mem_filter there)
    parts := fun name file there => ?_
    manifests := fun name file there => ?_
    staging := sound.staging }
  · rcases List.mem_cons.mp ((perm.map _).mem_iff.mp (sound.parts name file there)) with
      rfl | other
    · rw [part] at there
      cases there
    · exact other
  · rcases List.mem_cons.mp ((perm.map _).mem_iff.mp (sound.manifests name file there)) with
      rfl | other
    · rw [sidecar] at there
      cases there
    · exact other

/-- The files do not depend on the candidates. -/
theorem FilesSound.withDatabase (sound : FilesSound around ledger files) (database : Database) :
    FilesSound around { ledger with database } files where
  published := sound.published
  intended := sound.intended
  parts := sound.parts
  manifests := sound.manifests
  staging := sound.staging

end Files

section Accesses

variable (around : JobSurroundings)

/-- The process is stopped with an error at some access. -/
def Stops (error : PublicationError) : Prop := ∃ now, around.fault now = some error

variable {around} {ledger : PublicationLedger} {files : Place → Directory} {active : Bool}
variable {clock : Nat} {place : Place} {name : Text}
variable {Q : Unit → JobStore → Prop} {E : PublicationError → JobStore → Prop}

theorem proceed_ensures (goes : ∀ clock, Q ⟨⟩ ⟨ledger, files, active, clock⟩)
    (stops : ∀ error clock, Stops around error → E error ⟨ledger, files, active, clock⟩) :
    Ensures (proceed around) ⟨ledger, files, active, clock⟩ Q E := by
  unfold proceed
  apply Ensures.get_bind
  apply Ensures.modify_bind
  apply Ensures.of_attempt
  · rintro ⟨⟩ _
    exact goes _
  · intro error stopped
    apply stops
    refine ⟨clock, ?_⟩
    unfold stopAt at stopped
    split at stopped
    case h_1 => cases stopped
    case h_2 error' found =>
      cases stopped
      exact found

theorem executeLedger_ensures
    {change : PublicationLedger → Except PublicationError PublicationLedger}
    (goes : ∀ next clock, change ledger = .ok next → Q ⟨⟩ ⟨next, files, active, clock⟩)
    (fails : ∀ error clock, Stops around error ∨ change ledger = .error error →
      E error ⟨ledger, files, active, clock⟩) :
    Ensures (executeLedger around change) ⟨ledger, files, active, clock⟩ Q E := by
  unfold executeLedger
  apply Ensures.seq
  apply proceed_ensures
  · intro clock
    apply Ensures.get_bind
    apply Ensures.attempt_bind
    · intro next changed
      exact Ensures.of_modify (goes next clock changed)
    · intro error failed
      exact fails error clock (.inr failed)
  · intro error clock stopped
    exact fails error clock (.inl stopped)

theorem pathExists_ensures {Q : Bool → JobStore → Prop}
    (goes : ∀ clock, Q (fileAt files place name).isSome ⟨ledger, files, active, clock⟩)
    (stops : ∀ error clock, Stops around error → E error ⟨ledger, files, active, clock⟩) :
    Ensures (pathExists around place name) ⟨ledger, files, active, clock⟩ Q E := by
  unfold pathExists
  apply Ensures.seq
  apply proceed_ensures
  · intro clock
    exact Ensures.get_bind (Ensures.of_pure (goes clock))
  · exact stops

theorem refuseExisting_ensures
    (goes : ∀ clock, fileAt files place name = none → Q ⟨⟩ ⟨ledger, files, active, clock⟩)
    (fails : ∀ error clock, E error ⟨ledger, files, active, clock⟩) :
    Ensures (refuseExisting around place name) ⟨ledger, files, active, clock⟩ Q E := by
  unfold refuseExisting
  apply Ensures.seq
  apply pathExists_ensures
  · intro clock
    apply Ensures.of_refuse
    · intro absent
      exact goes clock (Option.not_isSome_iff_eq_none.mp absent)
    · intro _
      exact fails _ clock
  · intro error clock _
    exact fails error clock

theorem insertFile_ensures {file : StoredFile}
    (goes : Q ⟨⟩ ⟨ledger, insertFile files place name file, active, clock⟩) :
    Ensures (changeDirectory place (·.insert name file)) ⟨ledger, files, active, clock⟩ Q E :=
  Ensures.of_modify goes

theorem eraseFile_ensures (goes : Q ⟨⟩ ⟨ledger, eraseFile files place name, active, clock⟩) :
    Ensures (changeDirectory place (·.erase name)) ⟨ledger, files, active, clock⟩ Q E :=
  Ensures.of_modify goes

theorem renameNoclobber_ensures {source destination : Place} {sourceName destinationName : Text}
    (goes : ∀ clock file, fileAt files source sourceName = some file →
      fileAt files destination destinationName = none → Q ⟨⟩ ⟨ledger, insertFile
        (eraseFile files source sourceName) destination destinationName file, active, clock⟩)
    (fails : ∀ error clock, Stops around error ∨ fileAt files source sourceName = none ∨
      (fileAt files destination destinationName).isSome = true →
        E error ⟨ledger, files, active, clock⟩) :
    Ensures (renameNoclobber around source sourceName destination destinationName)
      ⟨ledger, files, active, clock⟩ Q E := by
  unfold renameNoclobber
  apply Ensures.seq
  apply proceed_ensures
  · intro clock
    apply Ensures.get_bind
    apply Ensures.attempt_bind
    · intro file found
      rw [okOr_eq_ok] at found
      apply Ensures.refuse_bind
      · intro absent
        rw [Option.not_isSome_iff_eq_none] at absent
        apply Ensures.seq
        apply eraseFile_ensures
        apply insertFile_ensures
        exact goes clock file found absent
      · intro there
        exact fails _ clock (.inr (.inr there))
    · intro error failed
      exact fails error clock (.inr (.inl (okOr_eq_error.mp failed).1))
  · intro error clock stopped
    exact fails error clock (.inl stopped)

theorem verifyFile_ensures {check : StoredFile → Except PublicationError Unit}
    (goes : ∀ clock file, fileAt files place name = some file → check file = .ok () →
      Q ⟨⟩ ⟨ledger, files, active, clock⟩)
    (fails : ∀ error clock,
      Stops around error ∨ ¬ (∃ file, fileAt files place name = some file ∧ check file = .ok ()) →
        E error ⟨ledger, files, active, clock⟩) :
    Ensures (verifyFile around place name check) ⟨ledger, files, active, clock⟩ Q E := by
  unfold verifyFile
  apply Ensures.seq
  apply proceed_ensures
  · intro clock
    apply Ensures.get_bind
    apply Ensures.attempt_bind
    · intro file found
      rw [okOr_eq_ok] at found
      apply Ensures.of_attempt
      · intro _ checked
        exact goes clock file found checked
      · intro error failed
        refine fails error clock (.inr ?_)
        rintro ⟨other, there, checked⟩
        obtain rfl := Option.some.inj (there.symm.trans found)
        rw [failed] at checked
        cases checked
    · intro error failed
      refine fails error clock (.inr ?_)
      rintro ⟨other, there, -⟩
      exact Option.some_ne_none other (there.symm.trans (okOr_eq_error.mp failed).1)
  · intro error clock stopped
    exact fails error clock (.inl stopped)

/-- Writing a description adds one file to the work in progress, all or a beginning of it. -/
theorem writeSidecarPartial_ensures {sidecar : PartSidecar}
    (goes : ∀ clock file, fileAt files .staging name = none →
      checkSidecarArtifact around.parse sidecar file = .ok () →
        Q ⟨⟩ ⟨ledger, insertFile files .staging name file, active, clock⟩)
    (fails : ∀ error clock, E error ⟨ledger, files, active, clock⟩)
    (torn : ∀ error clock file, fileAt files .staging name = none → file.isRegular = true →
      file.isPrivate = true → E error ⟨ledger, insertFile files .staging name file, active, clock⟩) :
    Ensures (writeSidecarPartial around name sidecar) ⟨ledger, files, active, clock⟩ Q E := by
  unfold writeSidecarPartial
  apply Ensures.seq
  apply proceed_ensures
  · intro clock
    apply Ensures.get_bind
    apply Ensures.refuse_bind
    · intro absent
      rw [Option.not_isSome_iff_eq_none] at absent
      apply Ensures.seq
      apply insertFile_ensures
      apply Ensures.seq
      apply proceed_ensures
      · intro clock
        apply Ensures.seq
        apply insertFile_ensures
        rw [insertFile_insertFile]
        apply Ensures.seq
        apply proceed_ensures
        · intro clock
          apply verifyFile_ensures
          · intro clock file found checked
            rw [fileAt_insertFile, if_pos ⟨rfl, rfl⟩] at found
            obtain rfl := Option.some.inj found
            exact goes clock _ absent checked
          · intro error clock _
            exact torn error clock _ absent rfl rfl
        · intro error clock _
          exact torn error clock _ absent rfl rfl
      · intro error clock _
        exact torn error clock _ absent rfl rfl
    · intro _
      exact fails _ clock
  · intro error clock _
    exact fails error clock

end Accesses

section Publishing

variable {around : JobSurroundings} {ledger : PublicationLedger} {files : Place → Directory}

theorem checkSidecarArtifact_private {parse : Bytes → Option PartSidecar} {sidecar : PartSidecar}
    {file : StoredFile} (checked : checkSidecarArtifact parse sidecar file = .ok ()) :
    file.isRegular = true ∧ file.isPrivate = true := by
  unfold checkSidecarArtifact at checked
  obtain ⟨_, attributes, -⟩ := bind_eq_ok.mp checked
  rw [refuse_eq_ok, Bool.or_eq_true, not_or, Bool.not_eq_true', Bool.not_eq_true',
    Bool.not_eq_false, Bool.not_eq_false] at attributes
  exact attributes

/-- A name that is neither among the manifests nor staged is that of no other part. -/
theorem FilesSound.freshName (sound : FilesSound around ledger files) {part : PublishedPart}
    (sidecar : fileAt files .manifests part.sidecarFilename = none)
    (staged : fileAt files .staging part.stagedSidecarFilename = none) :
    part.sidecarFilename ∉ ledger.publications.map (·.sidecarFilename) := by
  intro there
  obtain ⟨other, member, same⟩ := List.mem_map.mp there
  have sameStaged : other.stagedSidecarFilename = part.stagedSidecarFilename :=
    congrArg (· ++ ".partial".toList) same
  rw [← same] at sidecar
  rw [← sameStaged] at staged
  rcases List.mem_append.mp member with published | intended
  · obtain ⟨row, inside, rfl⟩ := List.mem_map.mp published
    obtain ⟨file, found, -⟩ := (sound.published row inside).2
    exact Option.some_ne_none file (found.symm.trans sidecar)
  · obtain ⟨intent, inside, rfl⟩ := List.mem_map.mp intended
    cases sound.intended intent inside with
    | recorded _ _ ready =>
        obtain ⟨file, found, -⟩ := ready
        exact Option.some_ne_none file (found.symm.trans staged)
    | moved _ _ ready =>
        obtain ⟨file, found, -⟩ := ready
        exact Option.some_ne_none file (found.symm.trans staged)
    | complete _ described =>
        obtain ⟨file, found, -⟩ := described
        exact Option.some_ne_none file (found.symm.trans sidecar)

theorem recordPublicationIntent_ensures {active : Bool} {clock : Nat}
    {Q : Unit → JobStore → Prop} {E : PublicationError → JobStore → Prop}
    (accounts : LedgerSound ledger) (stored : FilesSound around ledger files)
    {part : PublishedPart} {sidecar : PartSidecar} {itemKeys : List ItemKey}
    (described : Described part sidecar) (publishable : Publishable ledger part itemKeys)
    (fresh : part.sidecarFilename ∉ ledger.publications.map (·.sidecarFilename))
    (noPart : fileAt files .parts part.filename = none)
    (noSidecar : fileAt files .manifests part.sidecarFilename = none)
    (staged : SidecarStored around files .staging part.stagedSidecarFilename sidecar)
    (goes : ∀ clock, StoreSound around
      ⟨ledger.intending ⟨part, sidecar, itemKeys⟩, files, active, clock⟩ →
        Q ⟨⟩ ⟨ledger.intending ⟨part, sidecar, itemKeys⟩, files, active, clock⟩)
    (fails : ∀ error clock, E error ⟨ledger, files, active, clock⟩) :
    Ensures (recordPublicationIntent around part sidecar itemKeys) ⟨ledger, files, active, clock⟩
      Q E := by
  unfold recordPublicationIntent
  refine Ensures.get_bind (Ensures.refuse_bind (fun ready => ?_) fun _ => fails _ clock)
  refine Ensures.attempt_bind (fun _ available => ?_) fun error _ => fails error clock
  refine executeLedger_ensures (fun intended clock inserted => ?_) fun error clock _ =>
    fails error clock
  have someKeys : itemKeys ≠ [] := by
    rintro rfl
    rw [List.isEmpty_nil, Bool.or_true] at ready
    exact ready rfl
  let intent : PublicationIntent := ⟨part, sidecar, itemKeys⟩
  have descriptionReady : Described intent.part intent.sidecar := described
  obtain ⟨rfl, recorded⟩ := accounts.insertIntent descriptionReady someKeys publishable fresh
    (checkAvailable_ok available) inserted
  exact goes clock ⟨recorded, stored.insertIntent (.recorded noPart noSidecar staged)⟩

/-- The part of an intent is moved, then its description, and the part is published. -/
theorem publishIntended_ensures {active : Bool} {clock : Nat} {intent : PublicationIntent}
    {staged : Text} {partFile sidecarFile : StoredFile} (accounts : LedgerSound ledger)
    (stored : FilesSound around ledger files) (member : intent ∈ ledger.intents)
    (named : ¬ ".json.partial".toList <:+ staged)
    (found : fileAt files .staging staged = some partFile)
    (checked : checkPartArtifact around.sha256 intent.part intent.sidecar partFile = .ok ())
    (noSidecar : fileAt files .manifests intent.part.sidecarFilename = none)
    (stagedSidecar : fileAt files .staging intent.part.stagedSidecarFilename = some sidecarFile)
    (described : checkSidecarArtifact around.parse intent.sidecar sidecarFile = .ok ()) :
    Ensures (do
        renameNoclobber around .staging staged .parts intent.part.filename
        proceed around
        verifyPartArtifact around .parts intent.part.filename intent.part intent.sidecar
        proceed around
        renameNoclobber around .staging intent.part.stagedSidecarFilename .manifests
          intent.part.sidecarFilename
        proceed around
        verifySidecarArtifact around .manifests intent.part.sidecarFilename intent.sidecar
        proceed around
        commitPublishedPartTransaction around intent.part intent.sidecar intent.itemKeys true)
      ⟨ledger, files, active, clock⟩
      (fun _ next => StoreSound around next ∧ next.ledger = ledger.published intent)
      (fun _ next => StoreSound around next ∧ next.ledger = ledger) := by
  let Fails (next : JobStore) : Prop := StoreSound around next ∧ next.ledger = ledger
  have safe : ∀ clock, Fails ⟨ledger, files, active, clock⟩ := fun clock =>
    ⟨⟨accounts, stored⟩, rfl⟩
  have apart : ∀ another : PublicationIntent, another.part.stagedSidecarFilename ≠ staged :=
    fun _ => apart_of_named named
  -- The part is moved, and is the one that was checked.
  refine Ensures.seq (renameNoclobber_ensures (fun clock moved there _ => ?_)
    fun _ clock _ => safe clock)
  rw [found] at there
  obtain rfl := Option.some.inj there
  have stored := stored.movePart accounts member noSidecar ⟨sidecarFile, stagedSidecar, described⟩
    (fun another _ => apart another) checked
  let withPart := insertFile (eraseFile files .staging staged) .parts intent.part.filename partFile
  have safe : ∀ clock, Fails ⟨ledger, withPart, active, clock⟩ := fun clock =>
    ⟨⟨accounts, stored⟩, rfl⟩
  refine Ensures.seq (proceed_ensures (fun clock => ?_) fun _ clock _ => safe clock)
  refine Ensures.seq (verifyFile_ensures (fun clock _ partThere partChecked => ?_)
    fun _ clock _ => safe clock)
  refine Ensures.seq (proceed_ensures (fun clock => ?_) fun _ clock _ => safe clock)
  -- Its description follows.
  refine Ensures.seq (renameNoclobber_ensures (fun clock moved there _ => ?_)
    fun _ clock _ => safe clock)
  rw [fileAt_insertFile, if_neg fun both => Place.noConfusion both.1, fileAt_eraseFile,
    if_neg fun both => apart intent both.2, stagedSidecar] at there
  obtain rfl := Option.some.inj there
  have stored := stored.moveSidecar accounts member ⟨_, partThere, partChecked⟩ described
  let withSidecar := insertFile (eraseFile withPart .staging intent.part.stagedSidecarFilename)
    .manifests intent.part.sidecarFilename sidecarFile
  have safe : ∀ clock, Fails ⟨ledger, withSidecar, active, clock⟩ := fun clock =>
    ⟨⟨accounts, stored⟩, rfl⟩
  refine Ensures.seq (proceed_ensures (fun clock => ?_) fun _ clock _ => safe clock)
  refine Ensures.seq (verifyFile_ensures (fun clock _ sidecarThere sidecarChecked => ?_)
    fun _ clock _ => safe clock)
  refine Ensures.seq (proceed_ensures (fun clock => ?_) fun _ clock _ => safe clock)
  refine executeLedger_ensures (fun next clock committed => ?_) fun _ clock _ => safe clock
  obtain rfl := Except.ok.inj ((accounts.commitPart member).symm.trans committed)
  have partStored : PartStored around withSidecar .parts intent.part.filename intent.part
      intent.sidecar := by
    apply PartStored.congr ⟨_, partThere, partChecked⟩
    rw [fileAt_insertFile, if_neg fun both => Place.noConfusion both.1, fileAt_eraseFile,
      if_neg fun both => Place.noConfusion both.1]
  exact ⟨⟨accounts.published member, stored.publishedIntent accounts member partStored
    ⟨_, sidecarThere, sidecarChecked⟩⟩, rfl⟩

/-- A publication leaves the ledger as it was or with an intent, unless it succeeds. -/
theorem publishPart_ensures {store : JobStore} (sound : StoreSound around store) {staged : Text}
    (named : ¬ ".json.partial".toList <:+ staged) {part : PublishedPart} {sidecar : PartSidecar}
    {itemKeys : List ItemKey} (publishable : Publishable store.ledger part itemKeys) :
    Ensures (publishPart around staged part sidecar itemKeys) store
      (fun _ next => StoreSound around next ∧ next.ledger =
        (store.ledger.intending ⟨part, sidecar, itemKeys⟩).published ⟨part, sidecar, itemKeys⟩)
      (fun _ next => StoreSound around next ∧ (next.ledger = store.ledger ∨
        next.ledger = store.ledger.intending ⟨part, sidecar, itemKeys⟩)) := by
  obtain ⟨ledger, files, active, clock⟩ := store
  obtain ⟨accounts, stored⟩ := sound
  dsimp only at accounts stored publishable
  let intent : PublicationIntent := ⟨part, sidecar, itemKeys⟩
  let Fails (next : JobStore) : Prop := StoreSound around next ∧ (next.ledger = ledger ∨
    next.ledger = ledger.intending intent)
  have safe : ∀ clock, Fails ⟨ledger, files, active, clock⟩ := fun clock =>
    ⟨⟨accounts, stored⟩, .inl rfl⟩
  unfold publishPart
  refine Ensures.attempt_bind (fun _ record => ?_) fun _ _ => safe clock
  refine Ensures.attempt_bind (fun _ agrees => ?_) fun _ _ => safe clock
  refine Ensures.attempt_bind (fun name path => ?_) fun _ _ => safe clock
  obtain rfl : staged = name := by
    unfold stagedPartPath at path
    obtain ⟨_, -, same⟩ := bind_eq_ok.mp path
    exact Except.ok.inj same
  refine Ensures.seq (verifyFile_ensures (fun clock partFile found checked => ?_)
    fun _ clock _ => safe clock)
  refine Ensures.seq (proceed_ensures (fun clock => ?_) fun _ clock _ => safe clock)
  refine Ensures.seq (refuseExisting_ensures (fun clock noPart => ?_) fun _ clock => safe clock)
  refine Ensures.seq (refuseExisting_ensures (fun clock noSidecar => ?_) fun _ clock => safe clock)
  refine Ensures.seq (refuseExisting_ensures (fun clock noStaged => ?_) fun _ clock => safe clock)
  -- The description is written beside what the intents of the ledger need.
  have fresh := stored.freshName noSidecar noStaged
  have free : ∀ other ∈ ledger.intents,
      other.part.stagedSidecarFilename ≠ part.stagedSidecarFilename := by
    intro other there same
    apply fresh
    refine List.mem_map.mpr ⟨other.part, ?_, List.append_cancel_right same⟩
    exact List.mem_append_right _ (List.mem_map_of_mem there)
  have withStaged : ∀ file : StoredFile, file.isRegular = true → file.isPrivate = true →
      FilesSound around ledger (insertFile files .staging part.stagedSidecarFilename file) :=
    fun file regular isPrivate => stored.insertStaged
      ⟨regular, isPrivate, stagedSidecarFilename_removable record⟩ free
  refine Ensures.seq (writeSidecarPartial_ensures (fun clock sidecarFile _ described => ?_)
    (fun _ clock => safe clock) fun _ clock file _ regular isPrivate =>
      ⟨⟨accounts, withStaged file regular isPrivate⟩, .inl rfl⟩)
  obtain ⟨regular, isPrivate⟩ := checkSidecarArtifact_private described
  have stored := withStaged sidecarFile regular isPrivate
  have elsewhere : ∀ place name, ¬ (place = .staging ∧ name = part.stagedSidecarFilename) →
      fileAt (insertFile files .staging part.stagedSidecarFilename sidecarFile) place name =
        fileAt files place name := by
    intro place name other
    rw [fileAt_insertFile, if_neg other]
  have stagedSidecar : fileAt (insertFile files .staging part.stagedSidecarFilename sidecarFile)
      .staging part.stagedSidecarFilename = some sidecarFile := by
    rw [fileAt_insertFile, if_pos ⟨rfl, rfl⟩]
  have safe : ∀ clock, Fails ⟨ledger, insertFile files .staging part.stagedSidecarFilename
      sidecarFile, active, clock⟩ := fun clock => ⟨⟨accounts, stored⟩, .inl rfl⟩
  refine Ensures.seq (proceed_ensures (fun clock => ?_) fun _ clock _ => safe clock)
  -- From here on an intent tells how far the files are.
  have noSidecar := (elsewhere .manifests _ fun both => Place.noConfusion both.1).trans noSidecar
  have noPart := (elsewhere .parts _ fun both => Place.noConfusion both.1).trans noPart
  have stagedReady : SidecarStored around (insertFile files .staging part.stagedSidecarFilename
      sidecarFile) .staging part.stagedSidecarFilename sidecar :=
    ⟨sidecarFile, stagedSidecar, described⟩
  refine Ensures.seq (recordPublicationIntent_ensures accounts stored ⟨record, agrees⟩ publishable
    fresh noPart noSidecar stagedReady (fun clock intended => ?_) fun _ clock => safe clock)
  have member : intent ∈ (ledger.intending intent).intents :=
    List.mem_append_right _ (List.mem_singleton_self intent)
  have stillThere := (elsewhere .staging staged fun both => apart_of_named named both.2.symm).trans
    found
  refine (publishIntended_ensures intended.ledger intended.files member named stillThere checked
    noSidecar stagedSidecar described).mono (fun _ _ done => done) fun _ _ stopped => ?_
  exact ⟨stopped.1, .inr stopped.2⟩

end Publishing

section Reconciling

/-- What opening a job does with an intent: it publishes the part that was moved, and drops
the intent of one that was not. -/
inductive SettleStep (parts : Directory) :
    PublicationLedger → PublicationLedger → Prop
  | publish {ledger : PublicationLedger} {intent : PublicationIntent}
      (member : intent ∈ ledger.intents)
      (moved : (parts.lookup intent.part.filename).isSome = true) :
      SettleStep parts ledger (ledger.published intent)
  | drop {ledger : PublicationLedger} {intent : PublicationIntent}
      (member : intent ∈ ledger.intents) (absent : parts.lookup intent.part.filename = none) :
      SettleStep parts ledger (ledger.deleteIntent intent.part.index)

/-- Some of the intents have been settled. -/
abbrev Settles (parts : Directory) : PublicationLedger → PublicationLedger → Prop :=
  Relation.ReflTransGen (SettleStep parts)

variable {around : JobSurroundings} {ledger : PublicationLedger} {files : Place → Directory}
variable {active : Bool} {clock : Nat} {intent : PublicationIntent}

theorem Stage.part (stage : Stage around files intent)
    (moved : (fileAt files .parts intent.part.filename).isSome = true) :
    PartStored around files .parts intent.part.filename intent.part intent.sidecar := by
  cases stage with
  | recorded noPart =>
      rw [noPart] at moved
      cases moved
  | moved stored => exact stored
  | complete stored => exact stored

theorem Stage.sidecar (stage : Stage around files intent)
    (there : (fileAt files .manifests intent.part.sidecarFilename).isSome = true) :
    PartStored around files .parts intent.part.filename intent.part intent.sidecar ∧
      SidecarStored around files .manifests intent.part.sidecarFilename intent.sidecar := by
  cases stage with
  | recorded _ noSidecar =>
      rw [noSidecar] at there
      cases there
  | moved _ noSidecar =>
      rw [noSidecar] at there
      cases there
  | complete stored described => exact ⟨stored, described⟩

theorem Stage.staged (stage : Stage around files intent)
    (absent : fileAt files .manifests intent.part.sidecarFilename = none) :
    SidecarStored around files .staging intent.part.stagedSidecarFilename intent.sidecar := by
  cases stage with
  | recorded _ _ ready => exact ready
  | moved _ _ ready => exact ready
  | complete _ described =>
      obtain ⟨file, found, -⟩ := described
      exact absurd (found.symm.trans absent) (Option.some_ne_none file)

/-- The transaction of an intent whose files are in place can only be stopped. -/
theorem commitIntent_ensures {Q : Unit → JobStore → Prop} {E : PublicationError → JobStore → Prop}
    (accounts : LedgerSound ledger) (member : intent ∈ ledger.intents)
    (goes : ∀ clock, Q ⟨⟩ ⟨ledger.published intent, files, active, clock⟩)
    (stops : ∀ error clock, Stops around error → E error ⟨ledger, files, active, clock⟩) :
    Ensures (commitPublishedPartTransaction around intent.part intent.sidecar intent.itemKeys true)
      ⟨ledger, files, active, clock⟩ Q E := by
  have commits := accounts.commitPart member
  apply executeLedger_ensures
  · intro next clock committed
    obtain rfl := Except.ok.inj (commits.symm.trans committed)
    exact goes clock
  · rintro error clock (stopped | failed)
    · exact stops error clock stopped
    · rw [commits] at failed
      cases failed

/-- What can come of settling an intent: it is settled, or the process is stopped before. -/
def Settled (around : JobSurroundings) (ledger : PublicationLedger) (files : Place → Directory)
    (active : Bool) (intent : PublicationIntent) (next : JobStore) : Prop :=
  StoreSound around next ∧ SettleStep (files .parts) ledger next.ledger ∧
    next.ledger.intents = (ledger.deleteIntent intent.part.index).intents ∧
      next.files .parts = files .parts ∧ next.active = active

def Unsettled (around : JobSurroundings) (ledger : PublicationLedger) (files : Place → Directory)
    (error : PublicationError) (next : JobStore) : Prop :=
  StoreSound around next ∧ next.ledger = ledger ∧ next.files .parts = files .parts ∧
    Stops around error

/-- The staged description of a part that was moved is moved too, and the part published. -/
theorem finishIntent_ensures (accounts : LedgerSound ledger)
    (stored : FilesSound around ledger files) (member : intent ∈ ledger.intents)
    (part : PartStored around files .parts intent.part.filename intent.part intent.sidecar)
    (absent : fileAt files .manifests intent.part.sidecarFilename = none)
    (staged : SidecarStored around files .staging intent.part.stagedSidecarFilename intent.sidecar) :
    Ensures (do
        verifySidecarArtifact around .staging intent.part.stagedSidecarFilename intent.sidecar
        renameNoclobber around .staging intent.part.stagedSidecarFilename .manifests
          intent.part.sidecarFilename
        proceed around
        verifySidecarArtifact around .manifests intent.part.sidecarFilename intent.sidecar
        commitPublishedPartTransaction around intent.part intent.sidecar intent.itemKeys true)
      ⟨ledger, files, active, clock⟩ (fun _ next => Settled around ledger files active intent next)
      (Unsettled around ledger files) := by
  have safe : ∀ error clock, Stops around error →
      Unsettled around ledger files error ⟨ledger, files, active, clock⟩ :=
    fun error clock stopped => ⟨⟨accounts, stored⟩, rfl, rfl, stopped⟩
  have step : SettleStep (files .parts) ledger (ledger.published intent) := by
    obtain ⟨file, found, -⟩ := part
    exact .publish member (Option.isSome_iff_exists.mpr ⟨file, found⟩)
  obtain ⟨file, found, checked⟩ := staged
  refine Ensures.seq (verifyFile_ensures (fun clock _ _ _ => ?_) fun error clock fails => ?_)
  · refine Ensures.seq (renameNoclobber_ensures (fun clock file' there _ => ?_)
      fun error clock fails => ?_)
    · obtain rfl := Option.some.inj (found.symm.trans there)
      have stored := stored.moveSidecar accounts member part checked
      let withSidecar := insertFile (eraseFile files .staging intent.part.stagedSidecarFilename)
        .manifests intent.part.sidecarFilename file
      have same : withSidecar .parts = files .parts := by
        unfold withSidecar insertFile eraseFile
        rw [Function.update_of_ne Place.noConfusion, Function.update_of_ne Place.noConfusion]
      have part : PartStored around withSidecar .parts intent.part.filename intent.part
          intent.sidecar := part.congr (congrArg (·.lookup intent.part.filename) same)
      have sidecar : SidecarStored around withSidecar .manifests intent.part.sidecarFilename
          intent.sidecar := by
        refine ⟨file, ?_, checked⟩
        rw [fileAt_insertFile, if_pos ⟨rfl, rfl⟩]
      have safe : ∀ error clock, Stops around error →
          Unsettled around ledger files error ⟨ledger, withSidecar, active, clock⟩ :=
        fun error clock stopped => ⟨⟨accounts, stored⟩, rfl, same, stopped⟩
      refine Ensures.seq (proceed_ensures (fun clock => ?_) safe)
      refine Ensures.seq (verifyFile_ensures (fun clock _ _ _ => ?_) fun error clock fails =>
        safe error clock (fails.resolve_right (not_not.mpr sidecar)))
      refine commitIntent_ensures accounts member (fun clock => ?_) safe
      exact ⟨⟨accounts.published member, stored.publishedIntent accounts member part sidecar⟩,
        step, rfl, same, rfl⟩
    · rcases fails with stopped | none | there
      · exact safe error clock stopped
      · exact absurd (found.symm.trans none) (Option.some_ne_none file)
      · rw [absent] at there
        cases there
  · exact safe error clock (fails.resolve_right (not_not.mpr ⟨file, found, checked⟩))

/-- An intent is settled, or the process is stopped. -/
theorem reconcileIntent_ensures (accounts : LedgerSound ledger)
    (stored : FilesSound around ledger files) (member : intent ∈ ledger.intents) :
    Ensures (reconcileIntent around intent) ⟨ledger, files, active, clock⟩
      (fun _ next => Settled around ledger files active intent next)
      (Unsettled around ledger files) := by
  obtain ⟨⟨record, agrees⟩, filled⟩ := accounts.intended intent member
  have stage := stored.intended intent member
  have safe : ∀ error clock, Stops around error →
      Unsettled around ledger files error ⟨ledger, files, active, clock⟩ :=
    fun error clock stopped => ⟨⟨accounts, stored⟩, rfl, rfl, stopped⟩
  unfold reconcileIntent
  refine Ensures.seq (Ensures.of_ok record (Ensures.seq (Ensures.of_ok agrees ?_)))
  refine Ensures.refuse_bind (fun _ => ?_) fun none =>
    absurd (List.isEmpty_iff.mp none) filled.some
  refine Ensures.seq (pathExists_ensures (fun clock => ?_) safe)
  refine Ensures.seq (pathExists_ensures (fun clock => ?_) safe)
  by_cases moved : (fileAt files .parts intent.part.filename).isSome = true
  · rw [if_pos moved]
    have part := stage.part moved
    refine Ensures.seq (verifyFile_ensures (fun clock _ _ _ => ?_) fun error clock fails =>
      safe error clock (fails.resolve_right (not_not.mpr part)))
    dsimp only
    by_cases described : (fileAt files .manifests intent.part.sidecarFilename).isSome = true
    · rw [if_pos described]
      obtain ⟨-, sidecar⟩ := stage.sidecar described
      refine Ensures.seq (verifyFile_ensures (fun clock _ _ _ => ?_) fun error clock fails =>
        safe error clock (fails.resolve_right (not_not.mpr sidecar)))
      refine commitIntent_ensures accounts member (fun clock => ?_) safe
      exact ⟨⟨accounts.published member, stored.publishedIntent accounts member part sidecar⟩,
        .publish member moved, rfl, rfl, rfl⟩
    · rw [if_neg described]
      have absent := Option.not_isSome_iff_eq_none.mp described
      have staged := stage.staged absent
      have there : (fileAt files .staging intent.part.stagedSidecarFilename).isSome = true := by
        obtain ⟨file, found, -⟩ := staged
        exact Option.isSome_iff_exists.mpr ⟨file, found⟩
      refine Ensures.seq (pathExists_ensures (fun clock => ?_) safe)
      rw [if_pos there]
      exact finishIntent_ensures accounts stored member part absent staged
  · rw [if_neg moved]
    rw [Option.not_isSome_iff_eq_none] at moved
    have absent : fileAt files .manifests intent.part.sidecarFilename = none := by
      cases stage with
      | recorded _ noSidecar => exact noSidecar
      | moved stored =>
          obtain ⟨file, found, -⟩ := stored
          exact absurd (found.symm.trans moved) (Option.some_ne_none file)
      | complete stored =>
          obtain ⟨file, found, -⟩ := stored
          exact absurd (found.symm.trans moved) (Option.some_ne_none file)
    refine Ensures.refuse_bind (fun _ => ?_) fun there => ?_
    · apply executeLedger_ensures
      · intro next clock dropped
        obtain rfl := Except.ok.inj dropped
        exact ⟨⟨accounts.deleteIntent _, stored.deleteIntent accounts member moved absent⟩,
          .drop member moved, rfl, rfl, rfl⟩
      · rintro error clock (stopped | failed)
        · exact safe error clock stopped
        · cases failed
    · rw [absent] at there
      cases there

end Reconciling

section Reopening

variable {around : JobSurroundings} {ledger : PublicationLedger} {files : Place → Directory}
variable {active : Bool} {clock : Nat} {parts : Directory}

/-- What holds all the while that a job is opened. -/
structure Opening (around : JobSurroundings) (parts : Directory) (ledger : PublicationLedger)
    (next : JobStore) : Prop where
  sound : StoreSound around next
  settles : Settles parts ledger next.ledger
  parts : next.files .parts = parts

theorem Opening.refl (accounts : LedgerSound ledger) (stored : FilesSound around ledger files) :
    Opening around (files .parts) ledger ⟨ledger, files, active, clock⟩ :=
  ⟨⟨accounts, stored⟩, Relation.ReflTransGen.refl, rfl⟩

theorem Opening.head {before : PublicationLedger} {next : JobStore}
    (opening : Opening around parts ledger next) (step : SettleStep parts before ledger) :
    Opening around parts before next :=
  ⟨opening.sound, opening.settles.head step, opening.parts⟩

theorem reconcileIntents_ensures (intents : List PublicationIntent) :
    ∀ {ledger : PublicationLedger} {files : Place → Directory} {active : Bool} {clock : Nat},
      LedgerSound ledger → FilesSound around ledger files → intents.Perm ledger.intents →
        Ensures (reconcileIntents around intents) ⟨ledger, files, active, clock⟩
          (fun _ next => Opening around (files .parts) ledger next ∧ next.ledger.intents = [])
          (fun error next => Opening around (files .parts) ledger next ∧ Stops around error) := by
  induction intents with
  | nil =>
      intro ledger files active clock accounts stored perm
      exact ⟨.refl accounts stored, List.nil_perm.mp perm⟩
  | cons intent rest ih =>
      intro ledger files active clock accounts stored perm
      have member : intent ∈ ledger.intents := perm.mem_iff.mp List.mem_cons_self
      unfold reconcileIntents
      refine Ensures.seq ((reconcileIntent_ensures accounts stored member).mono ?_ ?_)
      · rintro _ ⟨nextLedger, nextFiles, nextActive, nextClock⟩ ⟨sound, step, intents, same, -⟩
        dsimp only at step intents same
        have remaining : rest.Perm nextLedger.intents := by
          rw [intents]
          exact (perm.trans (accounts.intents_perm member)).cons_inv
        refine (ih sound.ledger sound.files remaining).mono ?_ ?_
        · rintro _ next ⟨opening, none⟩
          dsimp only at opening
          rw [same] at opening
          exact ⟨opening.head step, none⟩
        · rintro error next ⟨opening, stopped⟩
          dsimp only at opening
          rw [same] at opening
          exact ⟨opening.head step, stopped⟩
      · rintro error next ⟨sound, same, parts, stopped⟩
        refine ⟨⟨sound, ?_, parts⟩, stopped⟩
        rw [same]

/-- Without intents, every file of the work in progress can be removed. -/
theorem removeEntries_ensures (names : List Text) :
    ∀ {files : Place → Directory} {clock : Nat}, LedgerSound ledger →
      FilesSound around ledger files → ledger.intents = [] → names.Nodup →
      (∀ name ∈ names, (fileAt files .staging name).isSome = true) →
        Ensures (removeEntries around names) ⟨ledger, files, active, clock⟩
          (fun _ next => StoreSound around next ∧ next.ledger = ledger ∧
            (∀ place, place ≠ .staging → next.files place = files place) ∧
              ∀ name, fileAt next.files .staging name =
                if name ∈ names then none else fileAt files .staging name)
          (fun error next => StoreSound around next ∧ next.ledger = ledger ∧
            (∀ place, place ≠ .staging → next.files place = files place) ∧
              Stops around error) := by
  induction names with
  | nil =>
      intro files clock accounts stored _ _ _
      refine ⟨⟨accounts, stored⟩, rfl, fun _ _ => rfl, fun name => ?_⟩
      rw [if_neg List.not_mem_nil]
  | cons name rest ih =>
      intro files clock accounts stored settled distinct there
      obtain ⟨fresh, distinct⟩ := List.nodup_cons.mp distinct
      obtain ⟨here, there⟩ := List.forall_mem_cons.mp there
      obtain ⟨file, found⟩ := Option.isSome_iff_exists.mp here
      obtain ⟨regular, isPrivate, leaf, suffix⟩ := stored.staging name file found
      have erased : FilesSound around ledger (eraseFile files .staging name) :=
        stored.eraseStaged fun intent inside =>
        absurd (settled ▸ inside) List.not_mem_nil
      have elsewhere : ∀ place, place ≠ .staging → eraseFile files .staging name place =
          files place := fun place different => Function.update_of_ne different _ _
      unfold removeEntries
      refine Ensures.seq (proceed_ensures (fun clock => ?_) fun error clock stopped =>
        ⟨⟨accounts, stored⟩, rfl, fun _ _ => rfl, stopped⟩)
      refine Ensures.get_bind (Ensures.seq (Ensures.of_ok (okOr_eq_ok.mpr found) ?_))
      refine Ensures.refuse_bind (fun _ => ?_) fun wrong => ?_
      · refine Ensures.seq (eraseFile_ensures ?_)
        have remain : ∀ other ∈ rest,
            (fileAt (eraseFile files .staging name) .staging other).isSome = true := by
          intro other inside
          have different : other ≠ name := fun same => fresh (same ▸ inside)
          rw [fileAt_eraseFile, if_neg (not_and_of_not_right _ different)]
          exact there other inside
        refine (ih accounts erased settled distinct remain).mono ?_ ?_
        · rintro _ next ⟨sound, same, others, gone⟩
          refine ⟨sound, same, fun place different =>
            (others place different).trans (elsewhere place different), fun other => ?_⟩
          rw [gone, fileAt_eraseFile]
          by_cases own : other = name
          · subst own
            simp only [List.mem_cons_self, and_self, if_true, ite_self]
          · rw [if_neg (not_and_of_not_right _ own)]
            simp only [List.mem_cons, own, false_or]
        · rintro error next ⟨sound, same, others, stopped⟩
          exact ⟨sound, same, fun place different =>
            (others place different).trans (elsewhere place different), stopped⟩
      · rw [regular, isPrivate, leaf, suffix] at wrong
        cases wrong

theorem removeStalePartials_ensures (accounts : LedgerSound ledger)
    (stored : FilesSound around ledger files) (settled : ledger.intents = []) :
    Ensures (removeStalePartials around) ⟨ledger, files, active, clock⟩
      (fun _ next => StoreSound around next ∧ next.ledger = ledger ∧
        (∀ place, place ≠ .staging → next.files place = files place) ∧
          ∀ name, fileAt next.files .staging name = none)
      (fun error next => StoreSound around next ∧ next.ledger = ledger ∧
        (∀ place, place ≠ .staging → next.files place = files place) ∧ Stops around error) := by
  unfold removeStalePartials
  refine Ensures.seq (proceed_ensures (fun clock => ?_) fun error clock stopped =>
    ⟨⟨accounts, stored⟩, rfl, fun _ _ => rfl, stopped⟩)
  apply Ensures.get_bind
  have there : ∀ name ∈ (files .staging).keys, (fileAt files .staging name).isSome = true :=
    fun name inside => AList.lookup_isSome.mpr (AList.mem_keys.mpr inside)
  refine (removeEntries_ensures (files .staging).keys accounts stored settled
    (files .staging).keys_nodup there).mono ?_ fun _ _ stopped => stopped
  rintro _ next ⟨sound, same, others, gone⟩
  refine ⟨sound, same, others, fun name => ?_⟩
  rw [gone]
  split
  case isTrue => rfl
  case isFalse absent =>
    exact AList.lookup_eq_none.mpr fun inside => absent (AList.mem_keys.mp inside)

theorem validateParts_ensures (stored : FilesSound around ledger files)
    (accounts : LedgerSound ledger) (rows : List PartRow) :
    ∀ {clock : Nat}, (∀ row ∈ rows, row ∈ ledger.parts) →
      Ensures (validateParts around rows) ⟨ledger, files, active, clock⟩
        (fun _ next => ∃ clock, next = ⟨ledger, files, active, clock⟩)
        (fun error next => (∃ clock, next = ⟨ledger, files, active, clock⟩) ∧
          Stops around error) := by
  induction rows with
  | nil => exact fun {clock} _ => ⟨clock, rfl⟩
  | cons row rest ih =>
      intro clock inside
      obtain ⟨here, inside⟩ := List.forall_mem_cons.mp inside
      obtain ⟨⟨record, agrees⟩, -⟩ := accounts.described row here
      obtain ⟨part, sidecar⟩ := stored.published row here
      unfold validateParts
      refine Ensures.seq (Ensures.of_ok record (Ensures.seq (Ensures.of_ok agrees ?_)))
      refine Ensures.seq (verifyFile_ensures (fun clock _ _ _ => ?_) fun error clock fails =>
        ⟨⟨clock, rfl⟩, fails.resolve_right (not_not.mpr part)⟩)
      refine Ensures.seq (verifyFile_ensures (fun clock _ _ _ => ?_) fun error clock fails =>
        ⟨⟨clock, rfl⟩, fails.resolve_right (not_not.mpr sidecar)⟩)
      exact ih inside

theorem checkManifests_ok {accounted names : List Text}
    (inside : ∀ name ∈ names, name ∈ accounted) :
    checkManifests accounted names = .ok () := by
  induction names with
  | nil => rfl
  | cons name rest ih =>
      obtain ⟨here, inside⟩ := List.forall_mem_cons.mp inside
      unfold checkManifests
      rw [bind_eq_ok]
      exact ⟨(), refuse_eq_ok.mpr (not_not.mpr here), ih inside⟩

/-- The files of a job without intents pass the checks. -/
theorem validatePartStore_ensures (accounts : LedgerSound ledger)
    (stored : FilesSound around ledger files) (settled : ledger.intents = []) :
    Ensures (validatePartStore around) ⟨ledger, files, active, clock⟩
      (fun _ next => ∃ clock, next = ⟨ledger, files, active, clock⟩)
      (fun error next => (∃ clock, next = ⟨ledger, files, active, clock⟩) ∧
        Stops around error) := by
  let rows := ledger.parts.insertionSort fun first second => first.part.index ≤ second.part.index
  have perm : rows.Perm ledger.parts := List.perm_insertionSort _ _
  have accounted : ∀ name ∈ (files .manifests).keys,
      name ∈ rows.map (·.part.sidecarFilename) := by
    intro name inside
    obtain ⟨file, found⟩ := Option.isSome_iff_exists.mp
      (AList.lookup_isSome.mpr (AList.mem_keys.mpr inside))
    have named := stored.manifests name file found
    rw [PublicationLedger.publications, settled, List.map_nil, List.append_nil,
      List.map_map] at named
    exact (perm.map _).mem_iff.mpr named
  unfold validatePartStore
  refine Ensures.seq (proceed_ensures (fun clock => ?_) fun error clock stopped =>
    ⟨⟨clock, rfl⟩, stopped⟩)
  apply Ensures.get_bind
  refine (validateParts_ensures stored accounts rows fun row => perm.mem_iff.mp).bind ?_
  rintro _ next ⟨clock, rfl⟩
  refine Ensures.seq (proceed_ensures (fun clock => ?_) fun error clock stopped =>
    ⟨⟨clock, rfl⟩, stopped⟩)
  apply Ensures.get_bind
  exact Ensures.of_ok (checkManifests_ok accounted) ⟨clock, rfl⟩

/-- A job that was opened: every intent is settled, and no work in progress is left. -/
structure Reopened (around : JobSurroundings) (store next : JobStore) : Prop where
  opening : Opening around (store.files .parts) store.ledger next
  intents : next.ledger.intents = []
  staging : ∀ name, fileAt next.files .staging name = none

/-- A sound job is opened, or the process is stopped and the job still sound. -/
theorem reopenJob_ensures {store : JobStore} (sound : StoreSound around store) :
    Ensures (reopenJob around) store (fun _ next => Reopened around store next)
      (fun error next => Opening around (store.files .parts) store.ledger next ∧
        Stops around error) := by
  obtain ⟨ledger, files, active, clock⟩ := store
  obtain ⟨accounts, stored⟩ := sound
  dsimp only at accounts stored ⊢
  unfold reopenJob
  apply Ensures.modify_bind
  refine Ensures.seq (proceed_ensures (fun clock => ?_) fun error clock stopped =>
    ⟨.refl accounts stored, stopped⟩)
  refine Ensures.get_bind (Ensures.seq (Ensures.of_ok accounts.validates ?_))
  have counted : discard (readCandidateRejectionCounts ledger.database) = .ok () := by
    obtain ⟨counts, read⟩ := accounts.counts
    rw [read]
    rfl
  refine Ensures.get_bind (Ensures.seq (Ensures.of_ok counted ?_))
  unfold reconcilePublications
  refine Ensures.seq (Ensures.seq (proceed_ensures (fun clock => ?_) fun error clock stopped =>
    ⟨.refl accounts stored, stopped⟩))
  apply Ensures.get_bind
  refine (reconcileIntents_ensures _ accounts stored (List.perm_insertionSort _ _)).mono ?_
    fun error next stopped => stopped
  rintro _ ⟨settledLedger, settledFiles, stillActive, later⟩ ⟨⟨sound, settles, parts⟩, none⟩
  dsimp only at sound settles parts none
  refine Ensures.seq ((removeStalePartials_ensures sound.ledger sound.files none).mono ?_ ?_)
  · rintro _ ⟨nextLedger, nextFiles, nextActive, nextClock⟩ ⟨cleared, same, others, gone⟩
    dsimp only at cleared same others gone
    subst same
    have opening : ∀ clock, Opening around (files .parts) ledger
        ⟨nextLedger, nextFiles, nextActive, clock⟩ := fun clock =>
      ⟨⟨cleared.ledger, cleared.files⟩, settles, (others _ Place.noConfusion).trans parts⟩
    refine Ensures.seq (proceed_ensures (fun clock => ?_) fun error clock stopped =>
      ⟨opening clock, stopped⟩)
    refine Ensures.get_bind (Ensures.seq (Ensures.of_ok cleared.ledger.validates ?_))
    refine (validatePartStore_ensures cleared.ledger cleared.files none).mono ?_ ?_
    · rintro _ next ⟨clock, rfl⟩
      exact ⟨opening clock, none, gone⟩
    · rintro error next ⟨⟨clock, rfl⟩, stopped⟩
      exact ⟨opening clock, stopped⟩
  · rintro error next ⟨sound, same, others, stopped⟩
    refine ⟨⟨sound, ?_, (others _ Place.noConfusion).trans parts⟩, stopped⟩
    rw [same]
    exact settles

end Reopening

end PstForge.Job
