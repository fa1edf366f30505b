import PushAudit.Proofs.Push.Findings

namespace PushAudit.Push

instance : Append Findings := ⟨fun f g => ⟨f.violations ++ g.violations, f.failed ++ g.failed⟩⟩

/-- The violations that the files of one commit produce. A commit that could not be fetched has none. -/
def shown : Fetched → List Violation
  | .ok files => files.flatMap fun f => f.patch.elim [] (Rule.violations f.name)
  | .error _ => []

def noted : String × Fetched → List Log.Entry
  | (_, .ok files) => patchless files
  | (id, .error _) => [fetchFailed id]

theorem violations_eq_flatMap (files : List ChangedFile) : violations files = shown (.ok files) := by
  rw [violations, fragments, shown]
  induction files with
  | nil => rfl
  | cons f files ih =>
      rw [List.flatMap_cons, ← ih]
      cases h : f.patch with
      | none => simp [h]
      | some text => simp [h]

theorem violations_retrieved (results : List (String × Fetched)) :
    violations (retrieved results) = results.flatMap fun r => shown r.2 := by
  induction results with
  | nil => rfl
  | cons r results ih =>
      obtain ⟨id, fetched⟩ := r
      cases fetched with
      | ok files => rw [retrieved_ok, violations_append, violations_eq_flatMap, ih, List.flatMap_cons]
      | error why => rw [retrieved_error, ih, List.flatMap_cons]; rfl

theorem findings_log (results : List (String × Fetched)) : (findings results).2 = results.flatMap noted := by
  induction results with
  | nil => rfl
  | cons r results ih =>
      obtain ⟨id, fetched⟩ := r
      cases fetched with
      | ok files => rw [List.flatMap_cons, ← ih]; rfl
      | error why => rw [List.flatMap_cons, ← ih]; rfl

theorem findings_eq_flatMap (results : List (String × Fetched)) :
    findings results =
      (⟨results.flatMap fun r => shown r.2, unretrieved results⟩, results.flatMap noted) := by
  apply Prod.ext
  · rw [findings_eq, violations_retrieved]
  · exact findings_log results

theorem unretrieved_append (xs ys : List (String × Fetched)) :
    unretrieved (xs ++ ys) = unretrieved xs ++ unretrieved ys := by
  rw [unretrieved, List.filter_append, List.map_append]
  rfl

theorem unretrieved_cons (r : String × Fetched) (results : List (String × Fetched)) :
    unretrieved (r :: results) = if r.2.toOption.isNone then r.1 :: unretrieved results else unretrieved results := by
  obtain ⟨id, fetched⟩ := r
  cases fetched with
  | ok files => exact unretrieved_ok id results files
  | error why => exact unretrieved_error id results why

theorem length_unretrieved (results : List (String × Fetched)) :
    (unretrieved results).length = results.countP fun r => r.2.toOption.isNone := by
  rw [unretrieved, List.length_map, List.countP_eq_length_filter]

theorem findings_append (xs ys : List (String × Fetched)) :
    findings (xs ++ ys) = ((findings xs).1 ++ (findings ys).1, (findings xs).2 ++ (findings ys).2) := by
  simp only [findings_eq_flatMap, List.flatMap_append, unretrieved_append]
  rfl

section Log

variable (results : List (String × Fetched))

theorem filter_patchless (level : Log.Level) (files : List ChangedFile) :
    (patchless files).filter (·.level = level) = if level = .debug then patchless files else [] := by
  rw [patchless, List.filter_map]
  split
  case isTrue h => simp [h, Function.comp_def]
  case isFalse h => simp [Ne.symm h, Function.comp_def]

theorem warnings_findings :
    (findings results).2.filter (·.level = .warn) = (findings results).1.failed.map fetchFailed := by
  rw [findings_log, findings_eq]
  induction results with
  | nil => rfl
  | cons r results ih =>
      obtain ⟨id, fetched⟩ := r
      rw [List.flatMap_cons, List.filter_append, ih]
      cases fetched with
      | ok files => rw [noted, filter_patchless, unretrieved_ok]; rfl
      | error why => rw [unretrieved_error]; rfl

theorem notes_findings :
    (findings results).2.filter (·.level = .debug) = patchless (retrieved results) := by
  rw [findings_log]
  induction results with
  | nil => rfl
  | cons r results ih =>
      obtain ⟨id, fetched⟩ := r
      rw [List.flatMap_cons, List.filter_append, ih]
      cases fetched with
      | ok files =>
          rw [noted, filter_patchless, retrieved_ok, patchless, patchless, patchless, List.filter_append,
            List.map_append]
          rfl
      | error why => rw [retrieved_error]; rfl

end Log

section Set

variable (results : List (String × Fetched)) (k : Fin results.length) (r : String × Fetched)

theorem set_eq_append : results.set k r = results.take k ++ r :: results.drop (k + 1) := by
  rw [List.set_eq_take_append_cons_drop, if_pos k.isLt]

theorem eq_append_getElem : results = results.take k ++ results[k] :: results.drop (k + 1) := by
  rw [← set_eq_append]
  exact (List.set_getElem_self k.isLt).symm

theorem violations_findings_append (before after : List (String × Fetched)) :
    (findings (before ++ r :: after)).1.violations =
      (before.flatMap fun r => shown r.2) ++ (shown r.2 ++ after.flatMap fun r => shown r.2) := by
  rw [findings_eq_flatMap]
  exact List.flatMap_append

theorem failed_findings_append (before after : List (String × Fetched)) :
    (findings (before ++ r :: after)).1.failed = unretrieved before ++ unretrieved (r :: after) := by
  rw [findings_eq_flatMap]
  exact unretrieved_append before _

end Set

/-- One commit that cannot be fetched takes its own violations out of what is found, and puts its id into the
list of those that failed, behind those that failed before it. All else stays as it is. The log has one
warning for each commit that failed and one note for each file without a patch in the others, and what is
found in two lists of commits is what is found in the one and then in the other. -/
theorem findings_isolated (results : List (String × Fetched)) (k : Fin results.length) (why : FetchError) :
    let id := results[k].1
    let before := (results.take k).flatMap fun r => shown r.2
    let after := (results.drop (k + 1)).flatMap fun r => shown r.2
    let place := (results.take k).countP fun r => r.2.toOption.isNone
    let found := (findings results).1
    let found' := (findings (results.set k (id, .error why))).1
    let log := (findings results).2
    (found.violations = before ++ (shown results[k].2 ++ after) ∧ found'.violations = before ++ after) ∧
      (found'.failed[place]? = some id ∧
        found.failed = if results[k].2.toOption.isNone then found'.failed else found'.failed.eraseIdx place) ∧
      log.filter (·.level = .warn) =
        found.failed.map (fun id => ⟨.warn, "failed to fetch commit details", [("commit", id)]⟩) ∧
      log.filter (·.level = .debug) = ((retrieved results).filter (·.patch.isNone)).map (fun f =>
        ⟨.debug, "no textual patch, skipping", [("file", f.name)]⟩) ∧
      log = results.flatMap noted ∧
      ∀ xs ys, findings (xs ++ ys) = ((findings xs).1 ++ (findings ys).1, (findings xs).2 ++ (findings ys).2) := by
  intro id before after place found found' log
  have hfailed' : found'.failed =
      unretrieved (results.take k) ++ id :: unretrieved (results.drop (k + 1)) := by
    simp only [found', set_eq_append, failed_findings_append, unretrieved_error]
  have hfailed : found.failed =
      unretrieved (results.take k) ++ unretrieved (results[k] :: results.drop (k + 1)) := by
    rw [← failed_findings_append, ← eq_append_getElem]
  have hplace : (unretrieved (results.take k)).length = place := length_unretrieved _
  refine ⟨⟨?_, ?_⟩, ⟨?_, ?_⟩, ?_, ?_, ?_, ?_⟩
  · rw [← violations_findings_append, ← eq_append_getElem]
  · simp only [found', set_eq_append, violations_findings_append]
    rfl
  · rw [hfailed', ← hplace]
    simp
  · rw [hfailed, hfailed', unretrieved_cons, ← hplace]
    split
    case isTrue => rfl
    case isFalse => simp [List.eraseIdx_append_of_length_le]
  · exact warnings_findings results
  · exact notes_findings results
  · exact findings_log results
  · exact findings_append

end PushAudit.Push
