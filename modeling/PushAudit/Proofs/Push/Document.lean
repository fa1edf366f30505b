import PushAudit.Push.Document
import PushAudit.Proofs.Json.Schema
import PushAudit.Proofs.Json.Unique

namespace PushAudit.Push

open Json

/-! What a document means as a push event or as the details of a commit. -/

def Person.Means (d : Tree) (p : Person) : Prop :=
  ∃ values, d.Provides ["name", "login"] values ∧
    Defaulting (Tree.IsNullable Tree.IsText) none (values "name") p.name ∧
    Defaulting (Tree.IsNullable Tree.IsText) none (values "login") p.login

def Repository.Means (d : Tree) (r : Repository) : Prop :=
  ∃ values, d.Provides ["name", "owner"] values ∧
    Required Tree.IsText (values "name") r.name ∧
    Defaulting (Tree.IsNullable Person.Means) none (values "owner") r.owner

def Commit.Means (d : Tree) (c : Commit) : Prop :=
  ∃ values, d.Provides ["id", "message", "author"] values ∧
    Required Tree.IsText (values "id") c.id ∧
    Defaulting Tree.IsText "" (values "message") c.message ∧
    Defaulting (Tree.IsNullable Person.Means) none (values "author") c.author

def Event.Means (d : Tree) (e : Event) : Prop :=
  ∃ values, d.Provides ["ref", "after", "pusher", "repository", "commits", "head_commit"] values ∧
    Required Tree.IsText (values "ref") e.ref ∧
    Defaulting (Tree.IsNullable Tree.IsText) none (values "after") e.after ∧
    Defaulting (Tree.IsNullable Person.Means) none (values "pusher") e.pusher ∧
    Required Repository.Means (values "repository") e.repository ∧
    Defaulting (Tree.IsList Commit.Means) [] (values "commits") e.commits ∧
    Defaulting (Tree.IsNullable Commit.Means) none (values "head_commit") e.headCommit

def ChangedFile.Means (d : Tree) (f : ChangedFile) : Prop :=
  ∃ values, d.Provides ["filename", "patch"] values ∧
    Required Tree.IsText (values "filename") f.name ∧
    Defaulting (Tree.IsNullable Tree.IsText) none (values "patch") f.patch

def MeansDetails (d : Tree) (files : List ChangedFile) : Prop :=
  ∃ values, d.Provides ["files"] values ∧ Defaulting (Tree.IsList ChangedFile.Means) [] (values "files") files

section Image

variable {δ α β : Type} {f : α → β} {default' : β}

/-- One meaning is the other followed by a function. -/
def IsImage (f : α → β) (means : δ → α → Prop) (means' : δ → β → Prop) : Prop :=
  ∀ d b, means' d b ↔ ∃ a, means d a ∧ f a = b

variable {means : Tree → α → Prop} {means' : Tree → β → Prop}

theorem IsImage.nullable (h : IsImage f means means') :
    IsImage (Option.map f) (Tree.IsNullable means) (Tree.IsNullable means') := by
  intro d b
  constructor
  · rintro (_ | ⟨hnull, hb⟩)
    · exact ⟨none, .null, rfl⟩
    · obtain ⟨a, ha, rfl⟩ := (h _ _).mp hb
      exact ⟨some a, .some hnull ha, rfl⟩
  · rintro ⟨_, _ | ⟨hnull, ha⟩, rfl⟩
    · exact .null
    · exact .some hnull ((h _ _).mpr ⟨_, ha, rfl⟩)

theorem IsImage.list (h : IsImage f means means') :
    IsImage (List.map f) (Tree.IsList means) (Tree.IsList means') := by
  intro d bs
  constructor
  · rintro ⟨hbs⟩
    induction hbs with
    | nil => exact ⟨[], .mk .nil, rfl⟩
    | cons hb _ ih =>
        obtain ⟨a, ha, rfl⟩ := (h _ _).mp hb
        obtain ⟨as, ⟨has⟩, rfl⟩ := ih
        exact ⟨a :: as, .mk (.cons ha has), rfl⟩
  · rintro ⟨as, ⟨has⟩, rfl⟩
    refine .mk ?_
    rw [List.forall₂_map_right_iff]
    exact has.imp fun d a ha => (h _ _).mpr ⟨a, ha, rfl⟩

theorem IsImage.required (h : IsImage f means means') : IsImage f (Required means) (Required means') := by
  intro ds b
  constructor
  · rintro ⟨hb⟩
    obtain ⟨a, ha, rfl⟩ := (h _ _).mp hb
    exact ⟨a, .mk ha, rfl⟩
  · rintro ⟨a, ⟨ha⟩, rfl⟩
    exact .mk ((h _ _).mpr ⟨a, ha, rfl⟩)

theorem IsImage.defaulting (h : IsImage f means means') (default : α) (hdefault : f default = default') :
    IsImage f (Defaulting means default) (Defaulting means' default') := by
  intro ds b
  constructor
  · rintro (_ | hb)
    · exact ⟨default, .omitted, hdefault⟩
    · obtain ⟨a, ha, rfl⟩ := (h _ _).mp hb
      exact ⟨a, .given ha, rfl⟩
  · rintro ⟨a, _ | ha, rfl⟩
    · exact hdefault ▸ .omitted
    · exact .given ((h _ _).mpr ⟨a, ha, rfl⟩)

end Image

theorem Person.isImage : IsImage Person.ofRow Person.schema.Means Person.Means := by
  intro d p
  constructor
  · rintro ⟨values, hvalues, hname, hlogin⟩
    exact ⟨(p.name, p.login, ()), ⟨values, hvalues, hname, hlogin, trivial⟩, rfl⟩
  · rintro ⟨⟨name, login, _⟩, ⟨values, hvalues, hname, hlogin, -⟩, rfl⟩
    exact ⟨values, hvalues, hname, hlogin⟩

theorem Repository.isImage : IsImage Repository.ofRow Repository.schema.Means Repository.Means := by
  have howner := Person.isImage.nullable.defaulting none rfl
  rintro d ⟨name, owner⟩
  constructor
  · rintro ⟨values, hvalues, hname, ho⟩
    obtain ⟨row, hrow, rfl⟩ := (howner _ _).mp ho
    exact ⟨(name, row, ()), ⟨values, hvalues, hname, hrow, trivial⟩, rfl⟩
  · rintro ⟨⟨name, owner, _⟩, ⟨values, hvalues, hname, h, -⟩, ⟨⟩⟩
    exact ⟨values, hvalues, hname, (howner _ _).mpr ⟨owner, h, rfl⟩⟩

theorem Commit.isImage : IsImage Commit.ofRow Commit.schema.Means Commit.Means := by
  have hauthor := Person.isImage.nullable.defaulting none rfl
  rintro d ⟨id, message, author⟩
  constructor
  · rintro ⟨values, hvalues, hid, hmessage, ha⟩
    obtain ⟨row, hrow, rfl⟩ := (hauthor _ _).mp ha
    exact ⟨(id, message, row, ()), ⟨values, hvalues, hid, hmessage, hrow, trivial⟩, rfl⟩
  · rintro ⟨⟨id, message, author, _⟩, ⟨values, hvalues, hid, hmessage, h, -⟩, ⟨⟩⟩
    exact ⟨values, hvalues, hid, hmessage, (hauthor _ _).mpr ⟨author, h, rfl⟩⟩

theorem Event.isImage : IsImage Event.ofRow Event.schema.Means Event.Means := by
  have hpusher := Person.isImage.nullable.defaulting none rfl
  have hrepository := Repository.isImage.required
  have hcommits := Commit.isImage.list.defaulting [] rfl
  have hhead := Commit.isImage.nullable.defaulting none rfl
  rintro d ⟨ref, after, pusher, repository, commits, headCommit⟩
  constructor
  · rintro ⟨values, hvalues, href, hafter, hp, hr, hc, hh⟩
    obtain ⟨row₁, hrow₁, rfl⟩ := (hpusher _ _).mp hp
    obtain ⟨row₂, hrow₂, rfl⟩ := (hrepository _ _).mp hr
    obtain ⟨row₃, hrow₃, rfl⟩ := (hcommits _ _).mp hc
    obtain ⟨row₄, hrow₄, rfl⟩ := (hhead _ _).mp hh
    exact ⟨(ref, after, row₁, row₂, row₃, row₄, ()),
      ⟨values, hvalues, href, hafter, hrow₁, hrow₂, hrow₃, hrow₄, trivial⟩, rfl⟩
  · rintro ⟨⟨ref, after, pusher, repository, commits, headCommit, _⟩,
      ⟨values, hvalues, href, hafter, hp, hr, hc, hh, -⟩, ⟨⟩⟩
    exact ⟨values, hvalues, href, hafter, (hpusher _ _).mpr ⟨pusher, hp, rfl⟩,
      (hrepository _ _).mpr ⟨repository, hr, rfl⟩, (hcommits _ _).mpr ⟨commits, hc, rfl⟩,
      (hhead _ _).mpr ⟨headCommit, hh, rfl⟩⟩

theorem ChangedFile.isImage : IsImage ChangedFile.ofRow ChangedFile.schema.Means ChangedFile.Means := by
  rintro d ⟨name, patch⟩
  constructor
  · rintro ⟨values, hvalues, hname, hpatch⟩
    exact ⟨(name, patch, ()), ⟨values, hvalues, hname, hpatch, trivial⟩, rfl⟩
  · rintro ⟨⟨name, patch, _⟩, ⟨values, hvalues, hname, hpatch, -⟩, ⟨⟩⟩
    exact ⟨values, hvalues, hname, hpatch⟩

def filesOfRow : detailsSchema.Val → List ChangedFile
  | (files, ()) => files.map ChangedFile.ofRow

theorem meansDetails_isImage : IsImage filesOfRow detailsSchema.Means MeansDetails := by
  have hfiles := ChangedFile.isImage.list.defaulting [] rfl
  intro d files
  constructor
  · rintro ⟨values, hvalues, h⟩
    obtain ⟨row, hrow, rfl⟩ := (hfiles _ _).mp h
    exact ⟨(row, ()), ⟨values, hvalues, hrow, trivial⟩, rfl⟩
  · rintro ⟨⟨files, _⟩, ⟨values, hvalues, h, -⟩, ⟨⟩⟩
    exact ⟨values, hvalues, (hfiles _ _).mpr ⟨files, h, rfl⟩⟩

theorem map_parse_eq_ok_iff {α : Type} {t : Schema} (ht : t.Distinct) {f : t.Val → α} {means : Tree → α → Prop}
    (hf : IsImage f t.Means means) {text : String} {a : α} :
    (t.parse text).map f = .ok a ↔ ∃ d, d.IsDocument text ∧ means d a := by
  have hmap : (t.parse text).map f = .ok a ↔ ∃ v, t.parse text = .ok v ∧ f v = a := by
    cases t.parse text <;> simp [Except.map]
  simp only [hmap, Schema.parse_eq_ok_iff ht]
  constructor
  · rintro ⟨v, ⟨d, hd, hv⟩, ha⟩
    exact ⟨d, hd, (hf d a).mpr ⟨v, hv, ha⟩⟩
  · rintro ⟨d, hd, ha⟩
    obtain ⟨v, hv, ha⟩ := (hf d a).mp ha
    exact ⟨v, ⟨d, hd, hv⟩, ha⟩

theorem Event.schema_distinct : Event.schema.Distinct := by
  simp [Event.schema, Commit.schema, Repository.schema, Person.schema, Schema.Distinct, Fields.Distinct,
    Fields.names]

theorem detailsSchema_distinct : detailsSchema.Distinct := by
  simp [detailsSchema, ChangedFile.schema, Schema.Distinct, Fields.Distinct, Fields.names]

theorem Event.parse_eq_ok_iff {text : String} {e : Event} :
    Event.parse text = .ok e ↔ ∃ d, d.IsDocument text ∧ Event.Means d e :=
  map_parse_eq_ok_iff Event.schema_distinct Event.isImage

theorem parseDetails_eq_ok_iff {text : String} {files : List ChangedFile} :
    parseDetails text = .ok files ↔ ∃ d, d.IsDocument text ∧ MeansDetails d files :=
  map_parse_eq_ok_iff detailsSchema_distinct meansDetails_isImage

theorem decodes_written :
    (∀ (e : Event) (d : Tree) (text : String), d.IsDocument text → Event.Means d e → Event.parse text = .ok e) ∧
      ∀ (files : List ChangedFile) (d : Tree) (text : String), d.IsDocument text → MeansDetails d files →
        parseDetails text = .ok files :=
  ⟨fun _ d _ hd he => Event.parse_eq_ok_iff.mpr ⟨d, hd, he⟩,
    fun _ d _ hd hfiles => parseDetails_eq_ok_iff.mpr ⟨d, hd, hfiles⟩⟩

def sampleText : String := "[\"a\",null, null,\x7b\"x\":\x7b\x7d,\"name\":\"\\u0062\"\x7d]\n"

def sampleTree : Tree :=
  .list [.text [.char 'a'], .null, .null,
    .record [([.char 'x'], .record []), (['n', 'a', 'm', 'e'].map .char, .text [.ofCode 0x62])]]

theorem sampleTree_isDocument : sampleTree.IsDocument sampleText := by
  have htext : sampleText.toList = ['[', '"', 'a', '"', ',', 'n', 'u', 'l', 'l', ',', ' ', 'n', 'u', 'l', 'l', ',',
      '\x7b', '"', 'x', '"', ':', '\x7b', '\x7d', ',', '"', 'n', 'a', 'm', 'e', '"', ':', '"', '\\', 'u', '0', '0',
      '6', '2', '"', '\x7d', ']', '\n'] := by
    simp [sampleText]
  rw [Tree.IsDocument, htext]
  refine ⟨_, ['\n'], .refl _, .list ?_, ⟨['\n'], rfl, by simp⟩⟩
  refine .cons (.first (.refl _)) (.text (quotedAt_chars ['a'] (by simp))) ?_
  refine .cons (.next (.refl _) (.refl _)) .null ?_
  refine .cons (.next (.refl _) ⟨[' '], rfl, by simp⟩) .null ?_
  refine .cons (.next (.refl _) (.refl _)) (.record ?_) (.nil (.refl _))
  refine .cons (.first (.refl _)) (quotedAt_chars ['x'] (by simp)) (.refl _) (.refl _)
    (.record (.nil (.refl _))) ?_
  refine .cons (.next (.refl _) (.refl _)) (quotedAt_chars ['n', 'a', 'm', 'e'] (by simp)) (.refl _)
    (.refl _) (.text ?_) (.nil (.refl _))
  exact .cons (.code (.mk (i := 0) (j := 0) (k := 6) (l := 2) rfl rfl rfl rfl)) .nil

def sampleEvent : Event := ⟨"a", none, none, ⟨"b", none⟩, [], none⟩

theorem sampleTree_means : Event.Means sampleTree sampleEvent := by
  have hnamed : Named [([.char 'x'], .record []), (['n', 'a', 'm', 'e'].map .char, .text [.ofCode 0x62])]
      [("x", .record []), ("name", .text [.char 'b'])] :=
    .cons ⟨spells_chars ['x'], rfl⟩ (.cons ⟨spells_chars ['n', 'a', 'm', 'e'], rfl⟩ .nil)
  refine ⟨_, .list (by decide), .mk (.mk (spells_chars ['a'])), .given .null, .given .null,
    .mk ⟨_, .record hnamed, ?_, ?_⟩, .omitted, .omitted⟩
  · exact .mk (.mk (spells_chars ['b']))
  · exact .omitted

theorem sampleFiles_isDocument : (Tree.list [.list [.list [.text [.char 'c']]]]).IsDocument "[[[\"c\"]]]" := by
  have htext : "[[[\"c\"]]]".toList = ['[', '[', '[', '"', 'c', '"', ']', ']', ']'] := by simp
  have hone {s t : List Char} {d : Tree} (h : TreeAt s d (']' :: t)) : TreeAt ('[' :: s) (.list [d]) t :=
    .list (.cons (.first (.refl _)) h (.nil (.refl _)))
  rw [Tree.IsDocument, htext]
  exact ⟨_, [], .refl _, hone (hone (hone (.text (quotedAt_chars ['c'] (by simp))))), .refl _⟩

theorem decodes_written_sample :
    (sampleTree.IsDocument sampleText ∧ Event.Means sampleTree sampleEvent ∧
      Event.parse sampleText = .ok sampleEvent) ∧
    parseDetails "[[[\"c\"]]]" = .ok [⟨"c", none⟩] := by
  have hfiles : MeansDetails (.list [.list [.list [.text [.char 'c']]]]) [⟨"c", none⟩] :=
    ⟨_, .list (by decide), .given (.mk (.cons ⟨_, .list (by decide), .mk (.mk (spells_chars ['c'])), .omitted⟩ .nil))⟩
  exact ⟨⟨sampleTree_isDocument, sampleTree_means,
    decodes_written.1 sampleEvent sampleTree sampleText sampleTree_isDocument sampleTree_means⟩,
    decodes_written.2 _ _ _ sampleFiles_isDocument hfiles⟩

theorem exists_document_iff {α : Type} {parse : String → Except Json.Error α} {means : Tree → α → Prop}
    (hparse : ∀ text a, parse text = .ok a ↔ ∃ d : Tree, d.IsDocument text ∧ means d a) {text : String} {a : α} :
    parse text = .ok a ↔
      ∃ d : Tree, (∀ d' : Tree, d'.IsDocument text ↔ d' = d) ∧ ∀ a', means d a' ↔ a' = a := by
  constructor
  · intro ha
    obtain ⟨d, hd, hmeans⟩ := (hparse text a).mp ha
    refine ⟨d, fun d' => ⟨fun hd' => hd'.unique hd, fun h => h ▸ hd⟩, fun a' => ⟨fun ha' => ?_, fun h => h ▸ hmeans⟩⟩
    exact Except.ok.inj (((hparse text a').mpr ⟨d, hd, ha'⟩).symm.trans ha)
  · rintro ⟨d, hd, hmeans⟩
    exact (hparse text a).mpr ⟨d, (hd d).mpr rfl, (hmeans a).mpr rfl⟩

/-- A text is read exactly if it is one document and that document means one thing, which is read. -/
theorem decodes_only_documents :
    (∀ (text : String) (e : Event), Event.parse text = .ok e ↔
      ∃ d : Tree, (∀ d' : Tree, d'.IsDocument text ↔ d' = d) ∧ ∀ e', Event.Means d e' ↔ e' = e) ∧
    ∀ (text : String) (files : List ChangedFile), parseDetails text = .ok files ↔
      ∃ d : Tree, (∀ d' : Tree, d'.IsDocument text ↔ d' = d) ∧ ∀ files', MeansDetails d files' ↔ files' = files :=
  ⟨fun _ _ => exists_document_iff fun _ _ => Event.parse_eq_ok_iff,
    fun _ _ => exists_document_iff fun _ _ => parseDetails_eq_ok_iff⟩

end PushAudit.Push
