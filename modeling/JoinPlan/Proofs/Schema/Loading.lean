import Mathlib.Data.List.Sort
import JoinPlan.Files.Tree
import JoinPlan.Proofs.Schema.Registration
import JoinPlan.Schema.Directory

/-!
# Loading a directory of schemas

A directory lists its files in no order, and they are taken in the order of their names. This
file supplies that the listing cannot be seen in what is loaded, and which file a failure is
about.

> `Registry.RefusesFile`: a file cannot be read, is no schema, has a fault, or repeats the name
> of a schema in an earlier file.

The loading is a loop that ends at its first error (`addFiles_of_ok`, `error_addFiles`). Where
it has gone well so far, the next file is refused exactly for one of these reasons
(`addFile_eq_error_iff`), so the loop ends with the first file that is (`loop_eq_error_iff`) and
goes well when there is none. All of this speaks of the files as a set, since they stand in one
order only (`inOrder_eq_of_perm`).
-/

namespace JoinPlan

namespace Registry

variable {path : String} {files : List (String × Option String)} {file : String × Option String}
  {schema : Schema} {r r' : Registry} {e : SchemaError}

/-! ## One file -/

/-- A file is the text of a schema. -/
def Reads (file : String × Option String) (schema : Schema) : Prop :=
  ∃ text, file.2 = some text ∧ Schema.read text = .ok schema

/-- A file is refused: it is no text, it is not the text of a schema, its schema has a fault, or
a file with an earlier name has a schema of the same name. -/
inductive RefusesFile (path : String) (files : List (String × Option String))
    (file : String × Option String) : SchemaError → Prop
  | unreadable : file.2 = none →
      RefusesFile path files file (.malformed (Path.join path file.1) "Failed to read file")
  | malformed {text : String} {cause : DefinitionError} : file.2 = some text →
      Schema.read text = .error cause →
      RefusesFile path files file (.malformed (Path.join path file.1)
        (": ".intercalate ("Invalid JSON" :: cause.message?.toList)))
  | faulty {schema : Schema} {fault : SchemaFault} : Reads file schema →
      schema.fault? = some fault →
      RefusesFile path files file (.malformed (Path.join path file.1) fault.message)
  | repeated {schema other : Schema} {earlier : String × Option String} : Reads file schema →
      schema.fault? = none → earlier ∈ files → earlier.1 < file.1 → Reads earlier other →
      other.name = schema.name →
      RefusesFile path files file (.alreadyRegistered schema.name)

theorem Reads.unique {other : Schema} (h : Reads file schema) (ho : Reads file other) :
    schema = other := by
  obtain ⟨text, htext, hread⟩ := h
  obtain ⟨text', htext', hread'⟩ := ho
  rw [htext] at htext'
  cases htext'
  rw [hread] at hread'
  exact Except.ok.inj hread'

/-- A file that is the text of a schema is refused for this schema, or for an earlier file. -/
theorem Reads.refuses_iff (h : Reads file schema) : RefusesFile path files file e ↔
    (∃ fault, schema.fault? = some fault ∧
      e = .malformed (Path.join path file.1) fault.message) ∨
    schema.fault? = none ∧ e = .alreadyRegistered schema.name ∧
      ∃ earlier ∈ files, earlier.1 < file.1 ∧
        ∃ other, Reads earlier other ∧ other.name = schema.name := by
  constructor
  · intro hrefuses
    obtain ⟨text, htext, hread⟩ := id h
    cases hrefuses with
    | unreadable hnone => cases hnone.symm.trans htext
    | malformed htext' hread' =>
      cases htext.symm.trans htext'
      cases hread.symm.trans hread'
    | faulty hreads hfault =>
      obtain rfl := h.unique hreads
      exact .inl ⟨_, hfault, rfl⟩
    | repeated hreads hsound hmem hlt hother hname =>
      obtain rfl := h.unique hreads
      exact .inr ⟨hsound, rfl, _, hmem, hlt, _, hother, hname⟩
  · rintro (⟨fault, hfault, rfl⟩ | ⟨hsound, rfl, earlier, hmem, hlt, other, hother, hname⟩)
    · exact .faulty h hfault
    · exact .repeated h hsound hmem hlt hother hname

theorem addFile_of_reads (h : Reads file schema) (r : Registry) (path : String) :
    r.addFile path file = r.add (Path.join path file.1) schema := by
  obtain ⟨text, htext, hread⟩ := h
  have hschema : schemaOfFile (Path.join path file.1) file.2 = .ok schema := by
    rw [htext, schemaOfFile, hread]
    rfl
  show schemaOfFile (Path.join path file.1) file.2 >>= r.add (Path.join path file.1) = _
  rw [hschema]
  rfl

/-- A file that is no text of a schema is refused for this, whatever was loaded before it. -/
theorem refuses_of_not_reads (h : ∀ schema, ¬Reads file schema) (path : String)
    (files : List (String × Option String)) :
    ∃ e, (∀ r : Registry, r.addFile path file = .error e) ∧
      ∀ e', RefusesFile path files file e' ↔ e' = e := by
  have hadd : ∀ {cause : SchemaError},
      schemaOfFile (Path.join path file.1) file.2 = .error cause →
        ∀ r : Registry, r.addFile path file = .error cause := by
    intro cause hcause r
    show schemaOfFile (Path.join path file.1) file.2 >>= r.add (Path.join path file.1) = _
    rw [hcause]
    rfl
  cases htext : file.2 with
  | none =>
    refine ⟨.malformed (Path.join path file.1) "Failed to read file", hadd ?_, fun e' => ?_⟩
    · rw [htext, schemaOfFile]
    · constructor
      · intro hrefuses
        cases hrefuses with
        | unreadable => rfl
        | malformed htext' => cases htext.symm.trans htext'
        | faulty hreads => exact absurd hreads (h _)
        | repeated hreads => exact absurd hreads (h _)
      · rintro rfl
        exact .unreadable htext
  | some text =>
    cases hread : Schema.read text with
    | ok schema => exact absurd ⟨text, htext, hread⟩ (h schema)
    | error cause =>
      refine ⟨.malformed (Path.join path file.1)
        (": ".intercalate ("Invalid JSON" :: cause.message?.toList)), hadd ?_, fun e' => ?_⟩
      · rw [htext, schemaOfFile, hread]
        rfl
      · constructor
        · intro hrefuses
          cases hrefuses with
          | unreadable htext' => cases htext.symm.trans htext'
          | malformed htext' hread' =>
            cases htext.symm.trans htext'
            cases hread.symm.trans hread'
            rfl
          | faulty hreads => exact absurd hreads (h _)
          | repeated hreads => exact absurd hreads (h _)
        · rintro rfl
          exact .malformed htext hread

/-! ## The loop over files -/

/-- The registry with the schemas of files, if none is refused. -/
def loop (path : String) (r : Registry) (files : List (String × Option String)) :
    Except SchemaError Registry :=
  files.foldlM (addFile path) r

/-- Loading files is the loop, with what was loaded before a failure. -/
theorem addFiles_of_ok (h : loop path r files = .ok r') : r.addFiles path files = ⟨r', none⟩ := by
  induction files generalizing r with
  | nil =>
    cases h
    rfl
  | cons file rest ih =>
    rw [loop, List.foldlM_cons] at h
    rw [addFiles]
    cases hfile : r.addFile path file with
    | error e =>
      rw [hfile] at h
      cases h
    | ok middle =>
      rw [hfile] at h
      exact ih h

theorem error_addFiles (h : loop path r files = .error e) :
    (r.addFiles path files).error = some e := by
  induction files generalizing r with
  | nil => cases h
  | cons file rest ih =>
    rw [loop, List.foldlM_cons] at h
    rw [addFiles]
    cases hfile : r.addFile path file with
    | error e' =>
      rw [hfile] at h
      cases h
      rfl
    | ok middle =>
      rw [hfile] at h
      exact ih h

/-- The schema that a file is the text of. -/
def schemaOf? (file : String × Option String) : Option Schema :=
  file.2.bind fun text => (Schema.read text).toOption

theorem schemaOf?_eq_some_iff : schemaOf? file = some schema ↔ Reads file schema := by
  unfold schemaOf? Reads
  rw [Option.bind_eq_some_iff]
  refine exists_congr fun text => and_congr_right fun _ => ?_
  cases Schema.read text <;> simp [Except.toOption]

/-- The loop goes well when every file is the text of a schema and these can be added. -/
theorem loop_eq_ok_iff : loop path r files = .ok r' ↔
    (∀ file ∈ files, ∃ schema, Reads file schema) ∧
      r.addAll (fun _ => inMemory) (files.filterMap schemaOf?) = .ok r' := by
  induction files generalizing r with
  | nil =>
    refine ⟨fun h => ⟨nofun, h⟩, And.right⟩
  | cons file rest ih =>
    rw [loop, List.foldlM_cons, List.forall_mem_cons]
    by_cases hfile : ∃ schema, Reads file schema
    · obtain ⟨schema, hreads⟩ := hfile
      rw [addFile_of_reads hreads, List.filterMap_cons_some (schemaOf?_eq_some_iff.mpr hreads)]
      cases hadd : r.add (Path.join path file.1) schema with
      | ok middle =>
        have hmemory : r.add inMemory schema = .ok middle :=
          add_eq_ok_iff.mpr (add_eq_ok_iff.mp hadd)
        rw [addAll_cons_of_ok (fun _ => inMemory) hmemory]
        exact ih.trans (and_congr_left fun _ => ⟨fun h => ⟨⟨schema, hreads⟩, h⟩, And.right⟩)
      | error e =>
        obtain ⟨e', hmemory, -⟩ := (add_eq_error_iff.mp hadd).exists_code_eq inMemory
        refine ⟨fun h => ?_, fun h => ?_⟩
        · cases h
        · have hrest := h.2
          rw [addAll_cons_of_error (fun _ => inMemory) (add_of_refuses hmemory)] at hrest
          cases hrest
    · obtain ⟨e, hrefused, -⟩ :=
        refuses_of_not_reads (fun schema h => hfile ⟨schema, h⟩) path rest
      rw [hrefused]
      refine ⟨fun h => ?_, fun h => absurd h.1.1 hfile⟩
      cases h

/-- After a loop from nothing, a schema stands under its name when a file is its text. -/
theorem get?_of_loop (h : loop path empty files = .ok r) {type : String} :
    r.get? type = some schema ↔ schema.name = type ∧ ∃ file ∈ files, Reads file schema := by
  obtain ⟨htakes, hget⟩ := addAll_eq_ok_iff.mp (loop_eq_ok_iff.mp h).2
  rw [hget, show empty.get? type = none from rfl, Option.none_or,
    find?_name_eq_some_iff htakes.distinct, List.mem_filterMap, and_comm]
  simp only [schemaOf?_eq_some_iff]

/-! ## The first refusal -/

section Sorted

variable {before after : List (String × Option String)}

/-- Among files in order, those before a file are those with an earlier name. -/
theorem mem_before_iff (hsorted : (before ++ file :: after).Pairwise fun a b => a.1 < b.1)
    {other : String × Option String} :
    other ∈ before ↔ other ∈ before ++ file :: after ∧ other.1 < file.1 := by
  obtain ⟨-, hafter, hbefore⟩ := List.pairwise_append.mp hsorted
  constructor
  · intro hother
    exact ⟨List.mem_append_left _ hother, hbefore other hother file List.mem_cons_self⟩
  · rintro ⟨hmem, hlt⟩
    rcases List.mem_append.mp hmem with hother | hother
    · exact hother
    · rcases List.mem_cons.mp hother with rfl | hother
      · exact absurd hlt (String.lt_irrefl _)
      · exact absurd hlt (String.lt_asymm ((List.pairwise_cons.mp hafter).1 other hother))

/-- Where the loop has gone well so far, the next file is refused for a reason of its own. -/
theorem addFile_eq_error_iff
    (hsorted : (before ++ file :: after).Pairwise fun a b => a.1 < b.1)
    (hloop : loop path empty before = .ok r) :
    r.addFile path file = .error e ↔ RefusesFile path (before ++ file :: after) file e := by
  by_cases hfile : ∃ schema, Reads file schema
  · obtain ⟨schema, hreads⟩ := hfile
    rw [addFile_of_reads hreads, add_eq_error_iff, hreads.refuses_iff]
    constructor
    · intro hrefuses
      cases hrefuses with
      | faulty hfault => exact .inl ⟨_, hfault, rfl⟩
      | taken hsound hheld =>
        obtain ⟨hname, earlier, hearlier, hother⟩ := (get?_of_loop hloop).mp hheld
        obtain ⟨hmem, hlt⟩ := (mem_before_iff hsorted).mp hearlier
        exact .inr ⟨hsound, rfl, earlier, hmem, hlt, _, hother, hname⟩
    · rintro (⟨fault, hfault, rfl⟩ | ⟨hsound, rfl, earlier, hmem, hlt, other, hother, hname⟩)
      · exact .faulty hfault
      · have hbefore := (mem_before_iff hsorted).mpr ⟨hmem, hlt⟩
        exact .taken hsound ((get?_of_loop hloop).mpr ⟨hname, earlier, hbefore, hother⟩)
  · obtain ⟨cause, hrefused, hcause⟩ := refuses_of_not_reads
      (fun schema h => hfile ⟨schema, h⟩) path (before ++ file :: after)
    rw [hrefused, hcause, Except.error.injEq, eq_comm]

/-- A loop that goes well refuses none of its files. -/
theorem not_refuses_of_loop (hloop : loop path empty before = .ok r)
    (hsorted : (before ++ after).Pairwise fun a b => a.1 < b.1) (hfile : file ∈ before) :
    ¬RefusesFile path (before ++ after) file e := by
  obtain ⟨front, back, rfl⟩ := List.append_of_mem hfile
  rw [loop, List.foldlM_append] at hloop
  rw [List.append_assoc] at hsorted ⊢
  cases hfront : loop path empty front with
  | error e' =>
    rw [← loop, hfront] at hloop
    cases hloop
  | ok middle =>
    intro hrefuses
    have hadd := (addFile_eq_error_iff hsorted hfront).mpr hrefuses
    rw [← loop, hfront] at hloop
    have hrest : (file :: back).foldlM (addFile path) middle = .ok r := hloop
    rw [List.foldlM_cons, hadd] at hrest
    cases hrest

/-- The loop goes well exactly when no file is refused. -/
theorem exists_loop_iff (path : String) (hsorted : files.Pairwise fun a b => a.1 < b.1) :
    (∃ r, loop path empty files = .ok r) ↔ ∀ file ∈ files, ∀ e, ¬RefusesFile path files file e := by
  constructor
  · rintro ⟨r, hloop⟩ file hfile e
    rw [← List.append_nil files] at hsorted
    have hall := not_refuses_of_loop (e := e) hloop hsorted hfile
    rwa [List.append_nil] at hall
  · intro hnone
    cases hloop : loop path empty files with
    | ok r => exact ⟨r, rfl⟩
    | error e =>
      obtain ⟨before, file, after, middle, rfl, hbefore, hfile⟩ := foldlM_eq_error_iff.mp hloop
      have hrefuses := (addFile_eq_error_iff hsorted hbefore).mp hfile
      exact absurd hrefuses (hnone file (by simp) e)

/-- The loop ends with the error of the first file that is refused. -/
theorem loop_eq_error_iff (path : String) (hsorted : files.Pairwise fun a b => a.1 < b.1) :
    loop path empty files = .error e ↔ ∃ file ∈ files, RefusesFile path files file e ∧
      ∀ earlier ∈ files, earlier.1 < file.1 → ∀ e', ¬RefusesFile path files earlier e' := by
  constructor
  · intro hloop
    obtain ⟨before, file, after, middle, rfl, hbefore, hfile⟩ := foldlM_eq_error_iff.mp hloop
    refine ⟨file, by simp, (addFile_eq_error_iff hsorted hbefore).mp hfile, ?_⟩
    intro earlier hearlier hlt e'
    exact not_refuses_of_loop hbefore hsorted ((mem_before_iff hsorted).mpr ⟨hearlier, hlt⟩)
  · rintro ⟨file, hfile, hrefuses, hfirst⟩
    obtain ⟨before, after, rfl⟩ := List.append_of_mem hfile
    -- No file before it is refused, so the loop comes to it.
    cases hbefore : loop path empty before with
    | ok middle =>
      exact foldlM_eq_error_iff.mpr ⟨before, file, after, middle, rfl, hbefore,
        (addFile_eq_error_iff hsorted hbefore).mpr hrefuses⟩
    | error e' =>
      obtain ⟨front, earlier, back, middle, rfl, hfront, hearlier⟩ :=
        foldlM_eq_error_iff.mp hbefore
      have hmem : earlier ∈ front ++ earlier :: back := by simp
      obtain ⟨hin, hlt⟩ := (mem_before_iff hsorted).mp hmem
      rw [List.append_assoc] at hsorted
      have hearlier' := (addFile_eq_error_iff hsorted hfront).mp hearlier
      refine absurd ?_ (hfirst earlier hin hlt e')
      rwa [List.append_assoc]

end Sorted

/-! ## The order of the files -/

/-- Files in the order of their names. -/
def inOrder (files : List (String × Option String)) : List (String × Option String) :=
  files.mergeSort fun a b => !decide (b.1 < a.1)

theorem mem_inOrder : file ∈ inOrder files ↔ file ∈ files := List.mem_mergeSort

theorem pairwise_inOrder (h : (files.map Prod.fst).Nodup) :
    (inOrder files).Pairwise fun a b => a.1 < b.1 := by
  have hle : (inOrder files).Pairwise fun a b => (!decide (b.1 < a.1)) = true := by
    refine List.pairwise_mergeSort ?_ ?_ files
    · intro a b c hab hbc
      simp only [Bool.not_eq_true', decide_eq_false_iff_not, String.not_lt] at hab hbc ⊢
      exact String.le_trans hab hbc
    · intro a b
      simp only [Bool.or_eq_true, Bool.not_eq_true', decide_eq_false_iff_not, String.not_lt]
      exact String.le_total a.1 b.1
  have hne : (inOrder files).Pairwise fun a b => a.1 ≠ b.1 :=
    List.pairwise_map.mp (((List.mergeSort_perm files _).map Prod.fst).nodup_iff.mpr h)
  refine (hle.and hne).imp fun hab => ?_
  simp only [Bool.not_eq_true', decide_eq_false_iff_not] at hab
  exact SortedMap.lt_of_not_lt_of_ne hab.1 hab.2

/-- Files with different names stand in one order only. -/
theorem inOrder_eq_of_perm {others : List (String × Option String)} (hperm : others.Perm files)
    (h : (files.map Prod.fst).Nodup) : inOrder others = inOrder files := by
  have hothers : (others.map Prod.fst).Nodup := (hperm.map Prod.fst).nodup_iff.mpr h
  have hsorted : (inOrder others).Perm (inOrder files) :=
    (List.mergeSort_perm others _).trans (hperm.trans (List.mergeSort_perm files _).symm)
  refine hsorted.eq_of_pairwise ?_ (pairwise_inOrder hothers) (pairwise_inOrder h)
  intro a b _ _ hab hba
  exact absurd hba (String.lt_asymm hab)

/-! ## A directory -/

/-- A file that is refused stays so among more files. -/
theorem RefusesFile.mono {others : List (String × Option String)}
    (h : ∀ file ∈ files, file ∈ others) (hrefuses : RefusesFile path files file e) :
    RefusesFile path others file e := by
  cases hrefuses with
  | unreadable htext => exact .unreadable htext
  | malformed htext hread => exact .malformed htext hread
  | faulty hreads hfault => exact .faulty hreads hfault
  | repeated hreads hsound hmem hlt hother hname =>
    exact .repeated hreads hsound (h _ hmem) hlt hother hname

/-- A file holds a schema: it is the text of one that has no fault. -/
def Holds (file : String × Option String) (schema : Schema) : Prop :=
  Reads file schema ∧ schema.fault? = none

/-- No file is refused exactly when every file holds a schema and no two of one name. -/
theorem forall_not_refuses_iff (h : (files.map Prod.fst).Nodup) :
    (∀ file ∈ files, ∀ e, ¬RefusesFile path files file e) ↔
      (∀ file ∈ files, ∃ schema, Holds file schema) ∧
        ∀ file ∈ files, ∀ other ∈ files, ∀ schema schema',
          Holds file schema → Holds other schema' → schema.name = schema'.name → file = other := by
  constructor
  · intro hnone
    have hholds : ∀ file ∈ files, ∃ schema, Holds file schema := by
      intro file hfile
      by_cases hreads : ∃ schema, Reads file schema
      · obtain ⟨schema, hreads⟩ := hreads
        cases hfault : schema.fault? with
        | none => exact ⟨schema, hreads, hfault⟩
        | some fault => exact absurd (.faulty hreads hfault) (hnone file hfile _)
      · obtain ⟨e, -, hrefuses⟩ :=
          refuses_of_not_reads (fun schema hread => hreads ⟨schema, hread⟩) path files
        exact absurd ((hrefuses e).mpr rfl) (hnone file hfile e)
    refine ⟨hholds, fun file hfile other hother schema schema' hschema hschema' hname => ?_⟩
    -- Of two files, the later one would repeat the name.
    refine List.inj_on_of_nodup_map h hfile hother (String.le_antisymm ?_ ?_)
    · refine String.not_lt.mp fun hlt => ?_
      exact hnone file hfile _ (.repeated hschema.1 hschema.2 hother hlt hschema'.1 hname.symm)
    · refine String.not_lt.mp fun hlt => ?_
      exact hnone other hother _ (.repeated hschema'.1 hschema'.2 hfile hlt hschema.1 hname)
  · rintro ⟨hholds, hapart⟩ file hfile e hrefuses
    obtain ⟨schema, hreads, hsound⟩ := hholds file hfile
    rcases hreads.refuses_iff.mp hrefuses with
      ⟨fault, hfault, -⟩ | ⟨-, -, earlier, hmem, hlt, other, hother, hname⟩
    · cases hsound.symm.trans hfault
    · obtain ⟨schema', hreads', hsound'⟩ := hholds earlier hmem
      obtain rfl := hother.unique hreads'
      have hsame := hapart earlier hmem file hfile other schema ⟨hother, hsound'⟩
        ⟨hreads, hsound⟩ hname
      rw [hsame] at hlt
      exact String.lt_irrefl _ hlt

end Registry

/-- A loading tells of files what they hold: it has no error when every file holds a schema and
no two of one name, and then the registry answers with these; otherwise its error is the one of
the first file that is refused. -/
structure Loading.Follows (loading : Loading) (path : String)
    (files : List (String × Option String)) : Prop where
  accepted : loading.error = none ↔
    (∀ file ∈ files, ∃ schema, Registry.Holds file schema) ∧
      ∀ file ∈ files, ∀ other ∈ files, ∀ schema schema', Registry.Holds file schema →
        Registry.Holds other schema' → schema.name = schema'.name → file = other
  held : loading.error = none → ∀ type schema, loading.registry.get? type = some schema ↔
    schema.name = type ∧ ∃ file ∈ files, Registry.Holds file schema
  refused : ∀ e, loading.error = some e ↔ ∃ file ∈ files, Registry.RefusesFile path files file e ∧
    ∀ earlier ∈ files, earlier.1 < file.1 → ∀ e', ¬Registry.RefusesFile path files earlier e'

namespace Registry

variable {path : String} {entries : List (String × Option String)}

theorem follows_ofDirectory (h : (entries.map Prod.fst).Nodup) :
    (ofDirectory path (.files entries)).Follows path entries := by
  have hsorted := pairwise_inOrder h
  have hrefuses : ∀ file e,
      RefusesFile path (inOrder entries) file e ↔ RefusesFile path entries file e := by
    intro file e
    exact ⟨.mono fun _ => mem_inOrder.mp, .mono fun _ => mem_inOrder.mpr⟩
  have haccepted := exists_loop_iff path hsorted
  have hrefused := fun e => loop_eq_error_iff (e := e) path hsorted
  simp only [mem_inOrder, hrefuses] at haccepted hrefused
  rw [forall_not_refuses_iff h] at haccepted
  show (empty.addFiles path (inOrder entries)).Follows path entries
  cases hloop : loop path empty (inOrder entries) with
  | ok r =>
    rw [addFiles_of_ok hloop]
    have hall := haccepted.mp ⟨r, hloop⟩
    refine ⟨iff_of_true rfl hall, fun _ type schema => ?_, fun e => ?_⟩
    · show r.get? type = some schema ↔ _
      rw [get?_of_loop hloop]
      simp only [mem_inOrder]
      refine and_congr_right fun _ => exists_congr fun file => and_congr_right fun hfile => ?_
      refine ⟨fun hreads => ?_, And.left⟩
      obtain ⟨other, hother⟩ := hall.1 file hfile
      rwa [hreads.unique hother.1]
    · rw [← hrefused, hloop]
      exact iff_of_false nofun nofun
  | error cause =>
    have herror := error_addFiles hloop
    refine ⟨iff_of_false ?_ ?_, fun hnone => ?_, fun e => ?_⟩
    · rw [herror]
      exact nofun
    · rw [← haccepted, hloop]
      rintro ⟨r, hr⟩
      cases hr
    · rw [herror] at hnone
      cases hnone
    · rw [← hrefused, hloop, herror, Option.some.injEq, Except.error.injEq]

/-- The schema files among the files of a directory, with their texts. -/
def schemaFiles (files : Files Id) (path : String) (names : List String) :
    List (String × Option String) :=
  (names.filter SchemaDirectory.isSchemaFile).map fun name =>
    (name, files.text? (Path.join path name))

theorem map_fst_schemaFiles (files : Files Id) (path : String) (names : List String) :
    (schemaFiles files path names).map Prod.fst = names.filter SchemaDirectory.isSchemaFile := by
  rw [schemaFiles, List.map_map]
  exact List.map_id _

/-- The loading of the schema directory at a path. -/
def load (files : Files Id) (path : String) : Loading :=
  let directory : SchemaDirectory := SchemaDirectory.read files path
  ofDirectory path directory

theorem load_of_listed {files : Files Id} {names : List String}
    (h : files.list path = Listing.names names) :
    load files path = ofDirectory path (.files (schemaFiles files path names)) := by
  have hread : (SchemaDirectory.read files path : SchemaDirectory) =
      match files.list path with
      | .missing => .missing
      | .unreadable => .unreadable
      | .names names => .files ((names.filter SchemaDirectory.isSchemaFile).mapM (m := Id)
          fun name => (pure (name, files.text? (Path.join path name)) : Id _)) := by
    unfold SchemaDirectory.read
    show (match files.list path with | .missing => _ | .unreadable => _ | .names names => _) = _
    cases files.list path <;> rfl
  show ofDirectory path (SchemaDirectory.read files path : SchemaDirectory) = _
  rw [hread, h]
  exact congrArg (fun entries => ofDirectory path (.files entries)) List.mapM_pure

/-- Loading a directory that can be listed. The order in which its files are listed makes no
difference. There is no error exactly when every schema file holds a schema and no two of one
name, and then the registry holds these schemas by their names; otherwise the error is the one
of the first file, in the order of the names, that cannot be read, is no schema, has a fault or
repeats the name of a schema in an earlier file. -/
theorem load_independent_of_listing {files others : Files Id} {path : String}
    {names names' : List String} (hlisted : files.list path = Listing.names names)
    (hdistinct : names.Nodup) (hothers : others.list path = Listing.names names')
    (hperm : names'.Perm names)
    (htexts : ∀ name ∈ names,
      others.text? (Path.join path name) = files.text? (Path.join path name)) :
    load others path = load files path ∧
      (load files path).Follows path (schemaFiles files path names) := by
  have hnames : ((schemaFiles files path names).map Prod.fst).Nodup := by
    rw [map_fst_schemaFiles]
    exact hdistinct.filter _
  have htexts' : schemaFiles others path names' = schemaFiles files path names' := by
    refine List.map_congr_left fun name hname => ?_
    rw [htexts name (hperm.mem_iff.mp (List.mem_of_mem_filter hname))]
  rw [load_of_listed hlisted, load_of_listed hothers, htexts']
  constructor
  · have hfiles : (schemaFiles files path names').Perm (schemaFiles files path names) :=
      (hperm.filter _).map _
    show empty.addFiles path (inOrder _) = empty.addFiles path (inOrder _)
    rw [inOrder_eq_of_perm hfiles hnames]
  · exact follows_ofDirectory hnames

/-- The text of a schema without attributes. -/
def shopText : String := "\x7b\"name\":\"shop\"\x7d"

/-- Two files with the schema of one type, and one file that is no schema file. -/
def shopEntries : List (String × FileTree) :=
  [("shop.json", .file (some shopText)), ("notes.txt", .file none),
    ("copy.json", .file (some shopText))]

/-- The files of a tree with a schema directory. -/
def filesOf (entries : List (String × FileTree)) : Files Id :=
  (FileTree.directory [("schemas", .directory entries)]).files

/-- The file that repeats the name is the later one by name, whichever is listed first. -/
theorem load_independent_of_listing_shops :
    (filesOf shopEntries).list "schemas" =
        Listing.names ["shop.json", "notes.txt", "copy.json"] ∧
      ["shop.json", "notes.txt", "copy.json"].Nodup ∧
      (filesOf shopEntries.reverse).list "schemas" =
        Listing.names ["copy.json", "notes.txt", "shop.json"] ∧
      ["copy.json", "notes.txt", "shop.json"].Perm ["shop.json", "notes.txt", "copy.json"] ∧
      (∀ name ∈ ["shop.json", "notes.txt", "copy.json"],
        (filesOf shopEntries.reverse).text? (Path.join "schemas" name) =
          (filesOf shopEntries).text? (Path.join "schemas" name)) ∧
      load (filesOf shopEntries.reverse) "schemas" = load (filesOf shopEntries) "schemas" ∧
      (load (filesOf shopEntries) "schemas").error = some (.alreadyRegistered "shop") := by
  have hlisted : (filesOf shopEntries).list "schemas" =
      Listing.names ["shop.json", "notes.txt", "copy.json"] := rfl
  have hothers : (filesOf shopEntries.reverse).list "schemas" =
      Listing.names ["copy.json", "notes.txt", "shop.json"] := rfl
  have hdistinct : ["shop.json", "notes.txt", "copy.json"].Nodup := by decide
  have hperm : ["copy.json", "notes.txt", "shop.json"].Perm
      ["shop.json", "notes.txt", "copy.json"] := by decide
  have htexts : ∀ name ∈ ["shop.json", "notes.txt", "copy.json"],
      (filesOf shopEntries.reverse).text? (Path.join "schemas" name) =
        (filesOf shopEntries).text? (Path.join "schemas" name) := by
    simp only [List.forall_mem_cons]
    exact ⟨rfl, rfl, rfl, nofun⟩
  obtain ⟨hsame, hfollows⟩ :=
    load_independent_of_listing hlisted hdistinct hothers hperm htexts
  have hfiles : schemaFiles (filesOf shopEntries) "schemas"
      ["shop.json", "notes.txt", "copy.json"] =
        [("shop.json", some shopText), ("copy.json", some shopText)] := by decide +kernel
  rw [hfiles] at hfollows
  have hread : Schema.read shopText = .ok (.make "shop" "1") := by decide +kernel
  have hreads : ∀ name, Reads (name, some shopText) (.make "shop" "1") := fun name =>
    ⟨shopText, rfl, hread⟩
  have hsound : (Schema.make "shop" "1").fault? = none := by decide +kernel
  refine ⟨hlisted, hdistinct, hothers, hperm, htexts, hsame, (hfollows.refused _).mpr ?_⟩
  have hcopy : ("copy.json", some shopText) ∈
      [("shop.json", some shopText), ("copy.json", some shopText)] := by simp
  refine ⟨("shop.json", some shopText), List.mem_cons_self, ?_, ?_⟩
  · exact .repeated (hreads _) hsound hcopy (by decide +kernel) (hreads _) rfl
  · intro earlier hearlier hlt e' hrefuses
    obtain rfl : earlier = ("copy.json", some shopText) := by
      rcases List.mem_cons.mp hearlier with rfl | hrest
      · exact absurd hlt (String.lt_irrefl _)
      · exact List.mem_singleton.mp hrest
    rcases (hreads _).refuses_iff.mp hrefuses with
      ⟨fault, hfault, -⟩ | ⟨-, -, first, hmem, hfirst, -⟩
    · cases hsound.symm.trans hfault
    · have hnone : ∀ file ∈ [("shop.json", some shopText), ("copy.json", some shopText)],
          ¬file.1 < "copy.json" := by decide +kernel
      exact hnone first hmem hfirst

end Registry

end JoinPlan
