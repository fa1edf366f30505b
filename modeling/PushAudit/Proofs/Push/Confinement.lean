import PushAudit.Proofs.Host.Walk
import PushAudit.Proofs.Push.Document
import PushAudit.Proofs.Push.Source

namespace PushAudit.Push

open Host (FileSystem)

def IsHexDigit (c : Char) : Prop := ('0' ≤ c ∧ c ≤ '9') ∨ ('a' ≤ c ∧ c ≤ 'f') ∨ ('A' ≤ c ∧ c ≤ 'F')

def IsHexId (id : String) : Prop := id ≠ "" ∧ ∀ c ∈ id.toList, IsHexDigit c

def entry (dir : Path) (id : String) : Path := dir.join ⟨id ++ ".json"⟩

/-- What a look-up of a commit comes to, without the texts of its error. -/
inductive Finding
  | invalidId
  | notFound
  | io
  | malformed
  | files (files : List ChangedFile)

def Finding.of : Fetched → Finding
  | .error (.invalidId _) => .invalidId
  | .error (.notFound _ _) => .notFound
  | .error (.unreadable _ _) => .io
  | .error (.malformed _ _) => .malformed
  | .ok fs => .files fs

/-- What a directory has under the id of a commit. -/
inductive Finds (fs : FileSystem) (dir : Path) (id : String) : Finding → Prop
  | invalidId (hid : ¬ IsHexId id) : Finds fs dir id .invalidId
  | notFound (hid : IsHexId id) (hbars : ¬ fs.Bars (entry dir id)) (h : ∀ t, fs.lookUp (entry dir id) ≠ .ok t) :
      Finds fs dir id .notFound
  | barred (hid : IsHexId id) (hbars : fs.Bars (entry dir id)) : Finds fs dir id .io
  | directory (hid : IsHexId id) {entries : List (String × Host.FileTree)}
      (h : fs.lookUp (entry dir id) = .ok (.directory entries)) : Finds fs dir id .io
  | notUtf8 (hid : IsHexId id) {content : ByteArray} (h : fs.lookUp (entry dir id) = .ok (.file content))
      (hcontent : ¬ content.IsValidUTF8) : Finds fs dir id .io
  | malformed (hid : IsHexId id) {text : String} (h : fs.lookUp (entry dir id) = .ok (.file text.toUTF8))
      (hno : ¬ ∃ (d : Json.Tree) (files : List ChangedFile), d.IsDocument text ∧ MeansDetails d files) :
      Finds fs dir id .malformed
  | files (hid : IsHexId id) {text : String} {d : Json.Tree} {files : List ChangedFile}
      (h : fs.lookUp (entry dir id) = .ok (.file text.toUTF8)) (hd : d.IsDocument text)
      (hfiles : MeansDetails d files) : Finds fs dir id (.files files)

theorem isHex_iff (c : Char) : isHex c ↔ IsHexDigit c := by
  simp [isHex, IsHexDigit, Char.isDigit, or_assoc, Char.le_def]

theorem isObjectId_iff (id : String) : isObjectId id ↔ IsHexId id := by
  simp [isObjectId, IsHexId, isHex_iff]

theorem entry_text_ne_empty (dir : Path) (id : String) : (entry dir id).text ≠ "" := by
  have hjson {s : String} : s ++ (id ++ ".json") ≠ "" := by simp
  unfold entry Path.join
  split_ifs
  · simp
  · exact hjson
  · exact hjson

variable {fs : FileSystem} {input : ByteArray} {dir : Path} {id : String} {finding : Finding}

theorem fetchFrom_run_of_not_hex (h : ¬ IsHexId id) :
    (fetchFrom dir id).run (fs.answer input) = ⟨.error (.invalidId id), [], []⟩ := by
  rw [fetchFrom, if_neg (by rwa [isObjectId_iff])]
  rfl

theorem fetchFrom_run_of_hex (h : IsHexId id) : (fetchFrom dir id).run (fs.answer input) =
    ⟨match (fs.read (entry dir id)).bind Host.decode with
      | .error .notFound => .error (.notFound id (entry dir id))
      | .error why => .error (.unreadable id why)
      | .ok text => (parseDetails text).mapError (.malformed id), [.read (entry dir id)], []⟩ := by
  rw [fetchFrom, if_pos (by rwa [isObjectId_iff]), Script.run_bind]
  have hread : (Host.readText (entry dir id)).run (fs.answer input) =
      ⟨(fs.read (entry dir id)).bind Host.decode, [.read (entry dir id)], []⟩ := rfl
  simp only [entry] at hread ⊢
  simp only [hread]
  split <;> simp_all

theorem exists_finds (fs : FileSystem) (dir : Path) (id : String) : ∃ finding, Finds fs dir id finding := by
  by_cases hid : IsHexId id
  · cases h : fs.lookUp (entry dir id) with
    | error why =>
        by_cases hbars : fs.Bars (entry dir id)
        · exact ⟨_, .barred hid hbars⟩
        · exact ⟨_, .notFound hid hbars (by simp [h])⟩
    | ok t =>
        cases t with
        | directory entries => exact ⟨_, .directory hid h⟩
        | file content =>
            by_cases hcontent : content.IsValidUTF8
            · obtain ⟨text, rfl⟩ : ∃ text : String, content = text.toUTF8 :=
                ⟨_, (Host.decode_eq_ok_iff content _).mp (Host.decode_of_valid hcontent)⟩
              by_cases hdoc : ∃ (d : Json.Tree) (files : List ChangedFile), d.IsDocument text ∧ MeansDetails d files
              · obtain ⟨d, files, hd, hfiles⟩ := hdoc
                exact ⟨_, .files hid h hd hfiles⟩
              · exact ⟨_, .malformed hid h hdoc⟩
            · exact ⟨_, .notUtf8 hid h hcontent⟩
  · exact ⟨_, .invalidId hid⟩

theorem fetchFrom_value_of_text {text : String} (hid : IsHexId id)
    (h : fs.lookUp (entry dir id) = .ok (.file text.toUTF8)) :
    ((fetchFrom dir id).run (fs.answer input)).value = (parseDetails text).mapError (.malformed id) := by
  have hread : (fs.read (entry dir id)).bind Host.decode = .ok text := by
    rw [FileSystem.read_of_file h]
    exact (Host.bind_decode_eq_ok_iff _ _).mpr rfl
  rw [fetchFrom_run_of_hex hid, hread]

theorem Finds.of_fetched (h : Finds fs dir id finding) (input : ByteArray) :
    Finding.of ((fetchFrom dir id).run (fs.answer input)).value = finding := by
  cases h with
  | invalidId hid => rw [fetchFrom_run_of_not_hex hid, Finding.of]
  | notFound hid hbars h =>
      cases hlook : fs.lookUp (entry dir id) with
      | error why =>
          have hwhy : why = .notFound := by
            by_contra hwhy
            exact hbars ((FileSystem.exists_fault_iff_bars (entry_text_ne_empty dir id)).mp ⟨why, hwhy, hlook⟩)
          rw [fetchFrom_run_of_hex hid, FileSystem.read_of_fault hlook, hwhy]
          rfl
      | ok t => exact absurd hlook (h t)
  | barred hid hbars =>
      obtain ⟨why, hwhy, hlook⟩ := (FileSystem.exists_fault_iff_bars (entry_text_ne_empty dir id)).mpr hbars
      rw [fetchFrom_run_of_hex hid, FileSystem.read_of_fault hlook]
      cases why with
      | notFound => exact absurd rfl hwhy
      | _ => rfl
  | directory hid h =>
      rw [fetchFrom_run_of_hex hid, FileSystem.read_of_directory h]
      rfl
  | notUtf8 hid h hcontent =>
      rw [fetchFrom_run_of_hex hid, FileSystem.read_of_file h]
      simp only [Except.bind, Host.decode_of_not_valid hcontent]
      rfl
  | malformed hid h hno =>
      rw [fetchFrom_value_of_text hid h]
      cases hparse : parseDetails _ with
      | error why => rfl
      | ok files =>
          obtain ⟨d, hd, hfiles⟩ := parseDetails_eq_ok_iff.mp hparse
          exact absurd ⟨d, files, hd, hfiles⟩ hno
  | files hid h hd hfiles =>
      rw [fetchFrom_value_of_text hid h, parseDetails_eq_ok_iff.mpr ⟨_, hd, hfiles⟩]
      rfl

theorem finds_iff : Finds fs dir id finding ↔
    Finding.of ((fetchFrom dir id).run (fs.answer input)).value = finding := by
  refine ⟨fun h => h.of_fetched input, ?_⟩
  rintro rfl
  obtain ⟨finding, h⟩ := exists_finds fs dir id
  exact h.of_fetched input ▸ h

theorem findings_congr (service service' : String → Fetched) {cs : List Commit}
    (h : ∀ c ∈ cs, (service c.id).toOption = (service' c.id).toOption) :
    findings (cs.map fun c => (c.id, service c.id)) = findings (cs.map fun c => (c.id, service' c.id)) := by
  induction cs with
  | nil => rfl
  | cons c cs ih =>
      have hcs := ih fun d hd => h d (List.mem_cons_of_mem c hd)
      have hc := h c List.mem_cons_self
      simp only [List.map_cons]
      cases hs : service c.id with
      | error why =>
          cases hs' : service' c.id with
          | error why' => simp only [findings, hcs]
          | ok files => simp [hs, hs', Except.toOption] at hc
      | ok files =>
          cases hs' : service' c.id with
          | error why' => simp [hs, hs', Except.toOption] at hc
          | ok files' =>
              obtain rfl : files = files' := by simpa [hs, hs', Except.toOption] using hc
              simp only [findings, hcs]

theorem audit_run_congr {service service' : Query → Fetched} {e : Event} {branches : List String}
    {unknownAuthor : String}
    (h : ∀ c ∈ e.commits, (service ⟨e.repository.location, c.id⟩).toOption =
      (service' ⟨e.repository.location, c.id⟩).toOption) :
    (audit e branches unknownAuthor).run service = (audit e branches unknownAuthor).run service' := by
  have hfindings := findings_congr (fun id => service ⟨e.repository.location, id⟩)
    (fun id => service' ⟨e.repository.location, id⟩) h
  unfold audit
  split
  · simp only [Script.run_bind, Script.run_log, Script.run_notes, Script.run_pure, fetchAll_run, hfindings]
  · rfl

theorem fetchFrom_toOption_of_hex (hid : IsHexId id) :
    ((fetchFrom dir id).run (fs.answer input)).value.toOption =
      ((fs.read (entry dir id)).toOption.bind fun bytes => (Host.decode bytes).toOption).bind
        fun text => (parseDetails text).toOption := by
  rw [fetchFrom_run_of_hex hid]
  cases fs.read (entry dir id) with
  | error why => cases why <;> rfl
  | ok bytes =>
      cases hdecode : Host.decode bytes with
      | error why => cases why <;> simp [Except.bind, hdecode, Except.toOption]
      | ok text =>
          cases hparse : parseDetails text <;>
            simp [Except.bind, Except.mapError, Except.toOption, hdecode, hparse]

theorem fetchFrom_log (fs : FileSystem) (input : ByteArray) (dir : Path) (id : String) :
    ((fetchFrom dir id).run (fs.answer input)).log = [] := by
  by_cases hid : IsHexId id
  · rw [fetchFrom_run_of_hex hid]
  · rw [fetchFrom_run_of_not_hex hid]

theorem auditFrom_run (fs : FileSystem) (input : ByteArray) (dir : Path) (e : Event) (branches : List String)
    (unknownAuthor : String) : (auditFrom dir e branches unknownAuthor).run (fs.answer input) =
      let t := (audit e branches unknownAuthor).run (served (fs.answer input) dir)
      ⟨t.value, t.asked.flatMap fun q => ((fetchFrom dir q.commit).run (fs.answer input)).asked, t.log⟩ :=
  Script.run_handle (S := Service) (T := Host) (fs.answer input) (fun q : Query => fetchFrom dir q.commit)
    (fun q => fetchFrom_log fs input dir q.commit) (audit e branches unknownAuthor)

theorem auditFrom_run_congr {fs fs' : FileSystem} {input input' : ByteArray} {dir : Path} {e : Event}
    {branches : List String} {unknownAuthor : String}
    (h : ∀ c ∈ e.commits, IsHexId c.id →
      (fs.read (entry dir c.id)).toOption = (fs'.read (entry dir c.id)).toOption) :
    (auditFrom dir e branches unknownAuthor).run (fs.answer input) =
      (auditFrom dir e branches unknownAuthor).run (fs'.answer input') := by
  have hasked (id : String) : ((fetchFrom dir id).run (fs.answer input)).asked =
      ((fetchFrom dir id).run (fs'.answer input')).asked := by
    by_cases hid : IsHexId id
    · rw [fetchFrom_run_of_hex hid, fetchFrom_run_of_hex hid]
    · rw [fetchFrom_run_of_not_hex hid, fetchFrom_run_of_not_hex hid]
  have haudit : (audit e branches unknownAuthor).run (served (fs.answer input) dir) =
      (audit e branches unknownAuthor).run (served (fs'.answer input') dir) := by
    refine audit_run_congr fun c hc => ?_
    simp only [served, Script.value]
    by_cases hid : IsHexId c.id
    · rw [fetchFrom_toOption_of_hex hid, fetchFrom_toOption_of_hex hid, h c hc hid]
    · rw [fetchFrom_run_of_not_hex hid, fetchFrom_run_of_not_hex hid]
  rw [auditFrom_run, auditFrom_run, haudit]
  simp only [hasked]

/-- An audit from a directory sees nothing of a machine but the files that the hexadecimal ids of the
commits name in it, and what it finds there is what it scans. -/
theorem audit_confined (dir : Path) (e : Event) (branches : List String) (unknownAuthor : String) :
    (∀ (fs fs' : FileSystem) (input input' : ByteArray),
      (∀ c ∈ e.commits, IsHexId c.id →
        (fs.read (entry dir c.id)).toOption = (fs'.read (entry dir c.id)).toOption) →
      (auditFrom dir e branches unknownAuthor).run (fs.answer input) =
        (auditFrom dir e branches unknownAuthor).run (fs'.answer input')) ∧
    ∀ (fs : FileSystem) (input : ByteArray),
      let look (id : String) := (fetchFrom dir id).run (fs.answer input)
      let results := e.commits.map fun c => (c.id, (look c.id).value)
      let patches := (retrieved results).filterMap fun f => f.patch.map (Fragment.mk f.name)
      let t := (auditFrom dir e branches unknownAuthor).run (fs.answer input)
      (∀ id finding, Finds fs dir id finding ↔ Finding.of (look id).value = finding) ∧
      (∀ id, IsHexId id → (look id).asked = [.read (entry dir id)]) ∧
      (∀ id, ¬ IsHexId id → (look id).asked = []) ∧
      (branchName e.ref ∉ branches → t.value = none ∧ t.asked = []) ∧
      (branchName e.ref ∈ branches → t.asked = e.commits.flatMap (fun c => (look c.id).asked) ∧
        ∃ o, t.value = some o ∧ o.report = Report.ofFragments patches ∧ o.failed = unretrieved results) := by
  refine ⟨fun fs fs' input input' => auditFrom_run_congr, fun fs input => ?_⟩
  refine ⟨fun _ _ => finds_iff, fun id hid => congrArg Trace.asked (fetchFrom_run_of_hex hid),
    fun id hid => congrArg Trace.asked (fetchFrom_run_of_not_hex hid), fun h => ?_, fun h => ?_⟩
  · obtain ⟨hvalue, hasked⟩ := audit_run_unwatched (served (fs.answer input) dir) e branches unknownAuthor h
    rw [auditFrom_run]
    exact ⟨hvalue, by simp only [hasked, List.flatMap_nil]⟩
  · obtain ⟨hvalue, hasked⟩ := audit_run_watched (served (fs.answer input) dir) e branches unknownAuthor h
    rw [auditFrom_run]
    exact ⟨by simp only [hasked, List.flatMap_map], _, hvalue, rfl, rfl⟩

def sampleMachine (other : String) : FileSystem :=
  ⟨.directory [("commits", .directory [("a1.json", .file "[]".toUTF8)]), ("x.json", .file other.toUTF8)], []⟩

def samplePush : Event := ⟨"refs/heads/main", none, none, ⟨"r", none⟩, [⟨"a1", "", none⟩, ⟨"../x", "", none⟩], none⟩

theorem read_sampleMachine (other : String) :
    (sampleMachine other).read (entry ⟨"commits"⟩ "a1") = .ok "[]".toUTF8 := by
  have habsolute : (entry ⟨"commits"⟩ "a1").isAbsolute = false := by decide +kernel
  have hsegments : Path.segments (entry ⟨"commits"⟩ "a1").text.toList = ["commits", "a1.json"] := by decide +kernel
  refine FileSystem.read_of_file ?_
  rw [FileSystem.lookUp_eq, if_neg (by decide +kernel), if_neg (by decide +kernel), if_neg (by decide +kernel),
    FileSystem.trail, habsolute, hsegments]
  rfl

theorem audit_confined_sample :
    (auditFrom ⟨"commits"⟩ samplePush ["main"] "").run ((sampleMachine "[]").answer .empty) =
      (auditFrom ⟨"commits"⟩ samplePush ["main"] "").run ((sampleMachine "else").answer .empty) := by
  refine (audit_confined ⟨"commits"⟩ samplePush ["main"] "").1 _ _ _ _ fun c hc hid => ?_
  have hcommits : c = ⟨"a1", "", none⟩ ∨ c = ⟨"../x", "", none⟩ := by simpa [samplePush] using hc
  rcases hcommits with rfl | rfl
  · rw [read_sampleMachine, read_sampleMachine]
  · have hdot : ¬ IsHexDigit '.' := by simp [IsHexDigit, Char.le_def]
    exact absurd (hid.2 '.' (by decide +kernel)) hdot

end PushAudit.Push
