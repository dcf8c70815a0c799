import Harbor.Trust.Config

/-!
# Trust configurations as JSON documents

How the struct tags of both configurations write them out and read them back.
`omitempty` drops empty lists, empty texts and false flags, and an absent
member is read as the zero value.  Only documents that spell each field at most
once, by its exact name, and have no other field are read here; what a decoder
makes of the rest is left to the `Codec`.
-/

namespace Harbor.Trust

inductive Document where
  | null
  | flag (value : Bool)
  | text (value : String)
  | list (items : List Document)
  | record (members : List (String × Document))

namespace Document

def ofFields (fields : List (String × Option Document)) : Document :=
  .record (fields.filterMap fun field => field.2.map fun value =>
    (field.1, value))

def fields (names : List String) : Document → Option (List (Option Document))
  | .record members =>
    if (members.map Prod.fst).Nodup ∧ members.map Prod.fst ⊆ names then
      some (names.map fun name => members.lookup name)
    else none
  | _ => none

def asText : Document → Option String
  | .text value => some value
  | _ => none

def asTexts : Document → Option (List String)
  | .list items => items.mapM asText
  | _ => none

end Document

def writeText (value : String) : Option Document :=
  some (.text value)

def omitText (value : String) : Option Document :=
  if value = "" then none else some (.text value)

def writeFlag (value : Bool) : Option Document :=
  some (.flag value)

def omitFlag (value : Bool) : Option Document :=
  if value then some (.flag true) else none

def omitTexts (values : List String) : Option Document :=
  if values = [] then none else some (.list (values.map .text))

def writeTexts : Option (List String) → Option Document
  | none => some .null
  | some values => some (.list (values.map .text))

def omitRecords {Entry : Type} (write : Entry → Document)
    (entries : List Entry) : Option Document :=
  if entries.isEmpty then none else some (.list (entries.map write))

def readText : Option Document → Option String
  | none => some ""
  | some document => document.asText

def readFlag : Option Document → Option Bool
  | none => some false
  | some (.flag value) => some value
  | _ => none

def readTexts : Option Document → Option (Option (List String))
  | none | some .null => some none
  | some document => document.asTexts.map some

def readRecords {Entry : Type} (read : Document → Option Entry) :
    Option Document → Option (List Entry)
  | none => some []
  | some (.list items) => items.mapM read
  | _ => none

end Harbor.Trust

namespace Harbor.CloudTrust

open Trust

def AWSAccount.document (a : AWSAccount) : Document :=
  .ofFields [("account", writeText a.account), ("arn_patterns", omitTexts a.arnPatterns),
      ("groups", omitTexts a.groups), ("auto_issue", omitFlag a.autoIssue),
      ("netblock", omitText a.netblock)]

def AWSAccount.ofDocument (document : Document) : Option AWSAccount := do
  match ← document.fields ["account", "arn_patterns", "groups", "auto_issue", "netblock"] with
  | [account, arnPatterns, groups, autoIssue, netblock] =>
    return {
      account := ← readText account
      arnPatterns := (← readTexts arnPatterns).getD []
      groups := (← readTexts groups).getD []
      autoIssue := ← readFlag autoIssue
      netblock := ← readText netblock }
  | _ => none

def Config.document (c : Config) : Document :=
  .ofFields [("default_groups", omitTexts c.defaultGroups),
      ("aws", omitRecords AWSAccount.document c.aws)]

def Config.ofDocument (document : Document) : Option Config := do
  match ← document.fields ["default_groups", "aws"] with
  | [defaultGroups, aws] =>
    return {
      defaultGroups := (← readTexts defaultGroups).getD []
      aws := ← readRecords AWSAccount.ofDocument aws }
  | _ => none

end Harbor.CloudTrust

namespace Harbor.UserTrust

open Trust

def IDPEntry.document (e : IDPEntry) : Document :=
  .ofFields [("realm", writeText e.realm), ("directory_group", writeText e.directoryGroup),
      ("mesh_groups", writeTexts e.meshGroups),
      ("auto_issue", writeFlag e.autoIssue), ("netblock", omitText e.netblock)]

def IDPEntry.ofDocument (document : Document) : Option IDPEntry := do
  match ← document.fields ["realm", "directory_group", "mesh_groups", "auto_issue", "netblock"] with
  | [realm, directoryGroup, meshGroups, autoIssue, netblock] =>
    return {
      realm := ← readText realm
      directoryGroup := ← readText directoryGroup
      meshGroups := ← readTexts meshGroups
      autoIssue := ← readFlag autoIssue
      netblock := ← readText netblock }
  | _ => none

def Config.document (c : Config) : Document :=
  .ofFields [("default_groups", omitTexts c.defaultGroups),
      ("idp_entries", omitRecords IDPEntry.document c.idpEntries)]

def Config.ofDocument (document : Document) : Option Config := do
  match ← document.fields ["default_groups", "idp_entries"] with
  | [defaultGroups, idpEntries] =>
    return {
      defaultGroups := (← readTexts defaultGroups).getD []
      idpEntries := ← readRecords IDPEntry.ofDocument idpEntries }
  | _ => none

end Harbor.UserTrust

namespace Harbor.Trust

/-- `encoding/json` on the two configuration types with unknown fields
disallowed, and what is made of a policy.  The decoders take any bytes; on a
written document they follow the struct tags. -/
structure Codec (Bytes : Type) where
  isEmpty : Bytes → Bool
  preparePolicy : Bytes → Except String (Bytes × Bool)
  validPolicy : Bytes → Bool
  marshal : Document → Bytes
  decodeCloud : Bytes → Except String CloudTrust.Config
  decodeUser : Bytes → Except String UserTrust.Config
  decodeCloud_marshal : ∀ {document : Document} {config : CloudTrust.Config},
    CloudTrust.Config.ofDocument document = some config →
      decodeCloud (marshal document) = .ok config
  decodeUser_marshal : ∀ {document : Document} {config : UserTrust.Config},
    UserTrust.Config.ofDocument document = some config → decodeUser (marshal document) = .ok config

theorem lookup_filterMap_of_not_mem {n : String} {cols : List (String × Option Document)}
    (gone : n ∉ cols.map Prod.fst) : (cols.filterMap fun col => col.2.map fun val =>
      (col.1, val)).lookup n = none := by
  induction cols with
  | nil => rfl
  | cons col rest ih =>
    obtain ⟨head, val⟩ := col
    simp only [List.map_cons, List.mem_cons, not_or] at gone
    obtain ⟨ne, late⟩ := gone
    cases val with
    | none => simpa using ih late
    | some document =>
      have unequal : (n == head) = false := beq_eq_false_iff_ne.mpr ne
      simp only [List.filterMap_cons, Option.map_some, List.lookup_cons, unequal]
      exact ih late

theorem map_lookup_filterMap {cols : List (String × Option Document)}
    (uniq : (cols.map Prod.fst).Nodup) : (cols.map Prod.fst).map (fun n =>
      (cols.filterMap fun col => col.2.map fun val =>
        (col.1, val)).lookup n) = cols.map Prod.snd := by
  induction cols with
  | nil => rfl
  | cons col rest ih =>
    obtain ⟨head, val⟩ := col
    simp only [List.map_cons, List.nodup_cons] at uniq
    obtain ⟨new, late⟩ := uniq
    have gone := lookup_filterMap_of_not_mem new
    cases val with
    | none =>
      simp only [List.map_cons, List.filterMap_cons, Option.map_none]
      rw [gone, ih late]
    | some document =>
      simp only [List.map_cons, List.filterMap_cons, Option.map_some,
        List.lookup_cons_self, List.cons.injEq, true_and]
      rw [← ih late]
      apply List.map_congr_left
      intro n mem
      have ne : (n == head) = false := by
        rw [beq_eq_false_iff_ne]
        rintro rfl
        exact new mem
      rw [List.lookup_cons, ne]

theorem filterMap_names_sublist (cols : List (String × Option Document)) :
    ((cols.filterMap fun col => col.2.map fun val =>
      (col.1, val)).map Prod.fst).Sublist (cols.map Prod.fst) := by
  induction cols with
  | nil => exact .slnil
  | cons col rest ih =>
    obtain ⟨head, val⟩ := col
    cases val with
    | none => exact ih.cons head
    | some document => exact ih.cons_cons head

theorem Document.fields_ofFields {cols : List (String × Option Document)}
    (uniq : (cols.map Prod.fst).Nodup) : (ofFields cols).fields (cols.map Prod.fst) =
      some (cols.map Prod.snd) := by
  have ns := filterMap_names_sublist cols
  rw [ofFields, Document.fields, if_pos ⟨uniq.sublist ns, ns.subset⟩,
    map_lookup_filterMap uniq]

theorem mapM_asText (vals : List String) :
    (vals.map Document.text).mapM Document.asText = some vals := by
  induction vals with
  | nil => rfl
  | cons val rest ih => simp [List.mapM_cons, Document.asText, ih]

theorem readText_writeText (val : String) : readText (writeText val) = some val :=
  rfl

theorem readFlag_writeFlag (val : Bool) : readFlag (writeFlag val) = some val :=
  rfl

@[simp]
theorem readText_omitText (val : String) : readText (omitText val) = some val := by
  unfold omitText
  split_ifs with empty
  · rw [empty]
    rfl
  · rfl

@[simp]
theorem readFlag_omitFlag (val : Bool) : readFlag (omitFlag val) = some val := by
  cases val <;> rfl

@[simp]
theorem readTexts_writeTexts (vals : Option (List String)) :
    readTexts (writeTexts vals) = some vals := by
  cases vals with
  | none => rfl
  | some vals =>
    rw [writeTexts, readTexts, Document.asTexts, mapM_asText]
    · rfl
    · rintro ⟨⟩

theorem readTexts_omitTexts (vals : List String) :
    ∃ read, readTexts (omitTexts vals) = some read ∧ read.getD [] = vals := by
  unfold omitTexts
  split_ifs with empty
  · exact ⟨none, rfl, empty.symm⟩
  · exact ⟨some vals, readTexts_writeTexts (some vals), rfl⟩

theorem readRecords_omitRecords {Entry : Type} {write : Entry → Document}
    {read : Document → Option Entry} (readsBack : ∀ entry, read (write entry) = some entry)
    (ents : List Entry) : readRecords read (omitRecords write ents) = some ents := by
  have all : (ents.map write).mapM read = some ents := by
    induction ents with
    | nil => rfl
    | cons entry rest ih => simp [List.mapM_cons, readsBack, ih]
  unfold omitRecords
  split_ifs with empty
  · rw [List.isEmpty_iff.mp empty]
    rfl
  · exact all

end Harbor.Trust

namespace Harbor.CloudTrust

open Trust

theorem AWSAccount.ofDocument_document (a : AWSAccount) :
    AWSAccount.ofDocument a.document = some a := by
  obtain ⟨patterns, readPatterns, samePatterns⟩ :=
    readTexts_omitTexts a.arnPatterns
  obtain ⟨groups, gs, gsEq⟩ := readTexts_omitTexts a.groups
  have cols := @Document.fields_ofFields
    [("account", writeText a.account), ("arn_patterns", omitTexts a.arnPatterns),
      ("groups", omitTexts a.groups), ("auto_issue", omitFlag a.autoIssue),
      ("netblock", omitText a.netblock)] (by simp)
  simp only [List.map_cons, List.map_nil] at cols
  simp [ofDocument, document, cols, readText_writeText, readPatterns, gs, samePatterns, gsEq]

theorem Config.ofDocument_document (c : Config) : Config.ofDocument c.document = some c := by
  obtain ⟨gs, readGroups, gsEq⟩ :=
    readTexts_omitTexts c.defaultGroups
  have accounts := readRecords_omitRecords AWSAccount.ofDocument_document c.aws
  have cols := @Document.fields_ofFields [("default_groups", omitTexts c.defaultGroups),
      ("aws", omitRecords AWSAccount.document c.aws)] (by simp)
  simp only [List.map_cons, List.map_nil] at cols
  simp [ofDocument, document, cols, readGroups, gsEq, accounts]

end Harbor.CloudTrust

namespace Harbor.UserTrust

open Trust

theorem IDPEntry.ofDocument_document (e : IDPEntry) : IDPEntry.ofDocument e.document = some e := by
  have cols := @Document.fields_ofFields [("realm", writeText e.realm),
      ("directory_group", writeText e.directoryGroup), ("mesh_groups", writeTexts e.meshGroups),
      ("auto_issue", writeFlag e.autoIssue), ("netblock", omitText e.netblock)] (by simp)
  simp only [List.map_cons, List.map_nil] at cols
  simp [ofDocument, document, cols, readText_writeText, readFlag_writeFlag]

theorem Config.ofDocument_document (c : Config) : Config.ofDocument c.document = some c := by
  obtain ⟨gs, readGroups, gsEq⟩ :=
    readTexts_omitTexts c.defaultGroups
  have ents :=
    readRecords_omitRecords IDPEntry.ofDocument_document c.idpEntries
  have cols := @Document.fields_ofFields [("default_groups", omitTexts c.defaultGroups),
      ("idp_entries", omitRecords IDPEntry.document c.idpEntries)] (by simp)
  simp only [List.map_cons, List.map_nil] at cols
  simp [ofDocument, document, cols, readGroups, gsEq, ents]

end Harbor.UserTrust
