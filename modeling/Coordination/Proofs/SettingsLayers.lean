import Coordination.Proofs.ReadSorted
import Coordination.Settings.Load

/-!
Settings in three layers. Each field takes the environment's value where the environment gives
one that counts (a connect string that is not blank, a timeout from 1 to 3600000), else the
settings file's value where the file gives one that is not `null`, else the default
(`layered`). Loading fails on a file value of the wrong type for its field, and otherwise
exactly when the layered settings break a validity rule (`load_layers`).

The file is read into an object whose keys are sorted (`Value.Sorted.of_text`), merged key by
key over the defaults, and taken apart by its four known keys, which the merge always holds.
-/

namespace Coordination.Settings

open Json

/-- The entry a settings file gives a field: its value in the file's object, unless it is
missing or `null`. -/
def fileEntry (F : Option (List (String × Value))) (f : Field) : Option Value :=
  F.bind fun kvs => (Fields.get? f.key kvs).filter (!·.isNull)

/-- Whether a value from a file has its field's type: a string for the connect string, an
unsigned integer for the timeouts. -/
def Field.Accepts : Field → Value → Prop
  | .connectString, v => ∃ s, v = .str s
  | _, v => ∃ n, v = .num (.nat n)

/-- The connect string a file gives. -/
def fileText (F : Option (List (String × Value))) : Option String :=
  match fileEntry F .connectString with
  | some (.str s) => some s
  | _ => none

/-- The number a file gives a field. -/
def fileNumber (F : Option (List (String × Value))) (f : Field) : Option Nat :=
  match fileEntry F f with
  | some (.num (.nat n)) => some n
  | _ => none

/-- The connect string the environment gives, if it is not blank. -/
def envText (env : String → Option String) : Option String :=
  (env urlVar).filter fun v => !(Coordination.Text.trimBlank v).isEmpty

/-- The number an environment variable gives, if its text is one from 1 to 3600000. -/
def envNumber (env : String → Option String) (name : String) : Option Nat :=
  (env name).bind fun v => boundedOfText v 1 maxEnvMillis

/-- The settings of the three layers: for each field the environment's value where it gives
one, else the file's, else the default. -/
def layered (F : Option (List (String × Value))) (env : String → Option String) : Settings :=
  ⟨envText env <|> fileText F,
   (envNumber env sessionTimeoutVar <|> fileNumber F .sessionTimeoutMs).getD
     defaultSessionTimeoutMs,
   (envNumber env reconnectIntervalVar <|> fileNumber F .reconnectIntervalMs).getD
     defaultReconnectIntervalMs,
   envNumber env operationTimeoutVar <|> fileNumber F .operationTimeoutMs⟩

/-! ### The file layer -/

/-- The file's settings, with the defaults where it gives nothing. -/
def fileLayer (F : Option (List (String × Value))) : Settings :=
  ⟨fileText F, (fileNumber F .sessionTimeoutMs).getD defaultSessionTimeoutMs,
   (fileNumber F .reconnectIntervalMs).getD defaultReconnectIntervalMs,
   fileNumber F .operationTimeoutMs⟩

theorem overrideBy_eq (env : String → Option String) (s : Settings) :
    overrideBy env s =
      ⟨envText env <|> s.connectString,
       (envNumber env sessionTimeoutVar).getD s.sessionTimeoutMs,
       (envNumber env reconnectIntervalVar).getD s.reconnectIntervalMs,
       envNumber env operationTimeoutVar <|> s.operationTimeoutMs⟩ := by
  unfold overrideBy envText envNumber
  dsimp only
  -- the connect string is set exactly when the variable is given and is not blank; each timeout
  -- exactly when its variable gives a number
  rcases env urlVar with _ | u
  · cases (env sessionTimeoutVar).bind fun v => boundedOfText v 1 maxEnvMillis <;>
    cases (env reconnectIntervalVar).bind fun v => boundedOfText v 1 maxEnvMillis <;>
    cases (env operationTimeoutVar).bind fun v => boundedOfText v 1 maxEnvMillis <;> rfl
  · by_cases hu : (Coordination.Text.trimBlank u).isEmpty <;>
    simp only [hu, Option.filter_some, if_true, if_false, Bool.not_true, Bool.not_false,
      Bool.false_eq_true] <;>
    cases (env sessionTimeoutVar).bind fun v => boundedOfText v 1 maxEnvMillis <;>
    cases (env reconnectIntervalVar).bind fun v => boundedOfText v 1 maxEnvMillis <;>
    cases (env operationTimeoutVar).bind fun v => boundedOfText v 1 maxEnvMillis <;> rfl

theorem overrideBy_fileLayer (F : Option (List (String × Value))) (env : String → Option String) :
    overrideBy env (fileLayer F) = layered F env := by
  rw [overrideBy_eq, layered, fileLayer]
  simp only [Settings.mk.injEq, true_and, and_true]
  constructor <;> cases envNumber _ _ <;> rfl

/-! ### Taking the merged object apart -/

/-- The entries of the defaults as an object. -/
def defaultFields : List (String × Value) :=
  [("connectString", .null), ("operationTimeoutMs", .null),
   ("reconnectIntervalMs", .num (.nat defaultReconnectIntervalMs)),
   ("sessionTimeoutMs", .num (.nat defaultSessionTimeoutMs))]

theorem toValue_defaults : toValue defaults = .obj defaultFields := rfl

/-- What the merged object holds at a field's key: the file's entry, else the default's. -/
def mergedEntry (F : Option (List (String × Value))) (f : Field) : Value :=
  (fileEntry F f).getD ((Fields.get? f.key defaultFields).getD .null)

theorem fileEntry_ne_null {F : Option (List (String × Value))} {f : Field} {v : Value}
    (h : fileEntry F f = some v) : v ≠ .null := by
  obtain ⟨kvs, -, hv⟩ := Option.bind_eq_some_iff.mp h
  obtain ⟨-, hn⟩ := Option.filter_eq_some_iff.mp hv
  rintro rfl
  simp [Value.isNull] at hn

theorem get?_merged {kvs : List (String × Value)} (hk : Fields.Sorted kvs) (f : Field) :
    Fields.get? f.key (mergeFields defaultFields kvs) = some (mergedEntry (some kvs) f) := by
  have hd : ∃ d, Fields.get? f.key defaultFields = some d ∧ ∀ kvs, d ≠ .obj kvs := by
    cases f <;> exact ⟨_, rfl, by simp⟩
  obtain ⟨d, hd, hdo⟩ := hd
  rw [get?_mergeFields hk, hd]
  simp only [mergedEntry, fileEntry, Option.bind_some, hd, Option.getD_some]
  cases hv : Fields.get? f.key kvs with
  | none => rfl
  | some v =>
    by_cases hn : v.isNull
    · simp [layer, hn, Option.filter]
    · simp [layer, hn, Option.filter, merge_of_target_not_obj hdo]

/-- Whether a key names a field of the record. -/
def isFieldKey (k : String) : Bool := (Field.ofKey? k).isSome

theorem key_of_ofKey? {k : String} {f : Field} (h : Field.ofKey? k = some f) : f.key = k := by
  simpa using List.find?_some h

theorem ne_key_of_ofKey? {k : String} (h : Field.ofKey? k = none) (f : Field) : f.key ≠ k := by
  have := List.find?_eq_none.mp h f (by cases f <;> simp)
  simpa using this

theorem get?_filter_fieldKey (kvs : List (String × Value)) (k : String) :
    Fields.get? k (kvs.filter (isFieldKey ·.1)) = if isFieldKey k then Fields.get? k kvs else none := by
  induction kvs with
  | nil => simp
  | cons kv rest ih =>
    rw [List.filter_cons]
    by_cases hk : k = kv.1
    · subst hk; split <;> simp_all [Fields.get?_cons]
    · split <;> simp [Fields.get?_cons, hk, ih]

theorem filter_merged {kvs : List (String × Value)} (hk : Fields.Sorted kvs) :
    (mergeFields defaultFields kvs).filter (isFieldKey ·.1) =
      [("connectString", mergedEntry (some kvs) .connectString),
       ("operationTimeoutMs", mergedEntry (some kvs) .operationTimeoutMs),
       ("reconnectIntervalMs", mergedEntry (some kvs) .reconnectIntervalMs),
       ("sessionTimeoutMs", mergedEntry (some kvs) .sessionTimeoutMs)] := by
  have hm : Fields.Sorted (mergeFields defaultFields kvs) :=
    Fields.Sorted.mergeFields (by decide) kvs
  have hfour : Fields.Sorted
      [("connectString", mergedEntry (some kvs) .connectString),
       ("operationTimeoutMs", mergedEntry (some kvs) .operationTimeoutMs),
       ("reconnectIntervalMs", mergedEntry (some kvs) .reconnectIntervalMs),
       ("sessionTimeoutMs", mergedEntry (some kvs) .sessionTimeoutMs)] := by
    rw [Fields.Sorted, ← List.pairwise_map (R := (· < ·))]
    simp only [List.map_cons, List.map_nil]
    decide
  refine Fields.Sorted.ext (hm.sublist List.filter_sublist) hfour fun k => ?_
  rw [get?_filter_fieldKey, isFieldKey]
  cases hf : Field.ofKey? k with
  | none =>
    have h₁ : k ≠ "connectString" := fun h => ne_key_of_ofKey? hf .connectString h.symm
    have h₂ : k ≠ "operationTimeoutMs" := fun h => ne_key_of_ofKey? hf .operationTimeoutMs h.symm
    have h₃ : k ≠ "reconnectIntervalMs" := fun h => ne_key_of_ofKey? hf .reconnectIntervalMs h.symm
    have h₄ : k ≠ "sessionTimeoutMs" := fun h => ne_key_of_ofKey? hf .sessionTimeoutMs h.symm
    simp [Fields.get?_cons, h₁, h₂, h₃, h₄]
  | some f =>
    rw [← key_of_ofKey? hf]
    simp only [Option.isSome_some, if_true]
    rw [get?_merged hk]
    cases f <;> rfl

/-- One entry of the object form: a field's key sets that field, any other key is skipped. -/
def entryStep (p : Partial) (kx : String × Value) : Except Error Partial :=
  match Field.ofKey? kx.1 with
  | some f => p.setOfValue f kx.2
  | none => pure p

theorem ofValue_obj (kvs : List (String × Value)) :
    ofValue (.obj kvs) = (do let p ← kvs.foldlM entryStep {}; pure p.fill) := rfl

theorem foldlM_entryStep (kvs : List (String × Value)) (p : Partial) :
    kvs.foldlM entryStep p = (kvs.filter (isFieldKey ·.1)).foldlM entryStep p := by
  induction kvs generalizing p with
  | nil => rfl
  | cons kv rest ih =>
    rw [List.filter_cons, isFieldKey]
    cases hf : Field.ofKey? kv.1 with
    | none => simp [entryStep, hf, ih]
    | some f => simp [entryStep, hf, ih]

theorem ofValue_merged {kvs : List (String × Value)} (hk : Fields.Sorted kvs) :
    ofValue (merge (toValue defaults) (.obj kvs)) = (do
      let cs ← optTextOfValue (mergedEntry (some kvs) .connectString)
      let ot ← optUnsignedOfValue (mergedEntry (some kvs) .operationTimeoutMs)
      let ri ← unsignedOfValue (mergedEntry (some kvs) .reconnectIntervalMs)
      let st ← unsignedOfValue (mergedEntry (some kvs) .sessionTimeoutMs)
      pure ⟨cs, st, ri, ot⟩) := by
  rw [toValue_defaults, merge_obj, ofValue_obj, foldlM_entryStep, filter_merged hk]
  simp [List.foldlM, entryStep, Field.ofKey?, Field.key, Partial.setOfValue, Partial.fill]

/-! ### Reading each field -/

section Reads

variable {F : Option (List (String × Value))}

theorem optTextOfValue_merged
    (h : ∀ v, fileEntry F .connectString = some v → Field.connectString.Accepts v) :
    optTextOfValue (mergedEntry F .connectString) = .ok (fileText F) := by
  unfold mergedEntry fileText
  cases hv : fileEntry F .connectString with
  | none => rfl
  | some v => obtain ⟨s, rfl⟩ := h v hv; rfl

theorem optTextOfValue_merged_error {v : Value} (hv : fileEntry F .connectString = some v)
    (hn : ¬ Field.connectString.Accepts v) :
    ∃ e, optTextOfValue (mergedEntry F .connectString) = .error e := by
  have hnull := fileEntry_ne_null hv
  rw [mergedEntry, hv, Option.getD_some]
  cases v with
  | null => exact absurd rfl hnull
  | str s => exact absurd ⟨s, rfl⟩ hn
  | _ => exact ⟨_, rfl⟩

theorem unsignedOfValue_merged {f : Field} {d : Nat}
    (hd : Fields.get? f.key defaultFields = some (.num (.nat d)))
    (h : ∀ v, fileEntry F f = some v → ∃ n, v = .num (.nat n)) :
    unsignedOfValue (mergedEntry F f) = .ok ((fileNumber F f).getD d) := by
  unfold mergedEntry fileNumber
  rw [hd]
  cases hv : fileEntry F f with
  | none => rfl
  | some v => obtain ⟨n, rfl⟩ := h v hv; rfl

theorem unsignedOfValue_merged_error {f : Field} {v : Value} (hv : fileEntry F f = some v)
    (hn : ¬ ∃ n, v = .num (.nat n)) : ∃ e, unsignedOfValue (mergedEntry F f) = .error e := by
  rw [mergedEntry, hv, Option.getD_some]
  cases v with
  | num n =>
    cases n with
    | nat n => exact absurd ⟨n, rfl⟩ hn
    | _ => exact ⟨_, rfl⟩
  | _ => exact ⟨_, rfl⟩

theorem optUnsignedOfValue_merged
    (h : ∀ v, fileEntry F .operationTimeoutMs = some v → ∃ n, v = .num (.nat n)) :
    optUnsignedOfValue (mergedEntry F .operationTimeoutMs) =
      .ok (fileNumber F .operationTimeoutMs) := by
  unfold mergedEntry fileNumber
  cases hv : fileEntry F .operationTimeoutMs with
  | none => rfl
  | some v => obtain ⟨n, rfl⟩ := h v hv; rfl

theorem optUnsignedOfValue_merged_error {v : Value}
    (hv : fileEntry F .operationTimeoutMs = some v) (hn : ¬ ∃ n, v = .num (.nat n)) :
    ∃ e, optUnsignedOfValue (mergedEntry F .operationTimeoutMs) = .error e := by
  obtain ⟨e, he⟩ := unsignedOfValue_merged_error hv hn
  have hnull := fileEntry_ne_null hv
  rw [mergedEntry, hv, Option.getD_some] at he ⊢
  cases v with
  | null => exact absurd rfl hnull
  | _ => exact ⟨e, by simp [optUnsignedOfValue, he]⟩

end Reads

/-! ### Loading -/

theorem validate_then (s : Settings) :
    (do validate s; pure s : Except SettingsError Settings) = (validate s).map fun _ => s := by
  cases validate s <;> rfl

theorem validate_error {s : Settings} {e : SettingsError} (h : validate s = .error e) :
    ∃ m, e = .invalidValue m := by
  unfold validate at h
  split_ifs at h <;> cases h <;> exact ⟨_, rfl⟩

variable {kvs : List (String × Value)}

theorem ofValue_merged_ok (hk : Fields.Sorted kvs)
    (h : ∀ f v, fileEntry (some kvs) f = some v → f.Accepts v) :
    ofValue (merge (toValue defaults) (.obj kvs)) = .ok (fileLayer (some kvs)) := by
  rw [ofValue_merged hk, optTextOfValue_merged (h .connectString),
    optUnsignedOfValue_merged (h .operationTimeoutMs),
    unsignedOfValue_merged rfl (h .reconnectIntervalMs),
    unsignedOfValue_merged rfl (h .sessionTimeoutMs)]
  rfl

/-- A file entry of the wrong type makes the merged object unreadable as settings, whichever
field it is: the fields are read in key order and the first failure stops the reading. -/
theorem ofValue_merged_error (hk : Fields.Sorted kvs) {f : Field} {v : Value}
    (hv : fileEntry (some kvs) f = some v) (hn : ¬ f.Accepts v) :
    ∃ e, ofValue (merge (toValue defaults) (.obj kvs)) = .error e := by
  rw [ofValue_merged hk]
  cases f with
  | connectString =>
    obtain ⟨e, he⟩ := optTextOfValue_merged_error hv hn
    exact ⟨e, by rw [he]; rfl⟩
  | operationTimeoutMs =>
    obtain ⟨e, he⟩ := optUnsignedOfValue_merged_error hv hn
    cases optTextOfValue _ with
    | error e' => exact ⟨e', rfl⟩
    | ok _ => exact ⟨e, by rw [he]; rfl⟩
  | reconnectIntervalMs =>
    obtain ⟨e, he⟩ := unsignedOfValue_merged_error hv hn
    cases optTextOfValue _ with
    | error e' => exact ⟨e', rfl⟩
    | ok _ =>
      cases optUnsignedOfValue _ with
      | error e' => exact ⟨e', rfl⟩
      | ok _ => exact ⟨e, by rw [he]; rfl⟩
  | sessionTimeoutMs =>
    obtain ⟨e, he⟩ := unsignedOfValue_merged_error hv hn
    cases optTextOfValue _ with
    | error e' => exact ⟨e', rfl⟩
    | ok _ =>
      cases optUnsignedOfValue _ with
      | error e' => exact ⟨e', rfl⟩
      | ok _ =>
        cases unsignedOfValue _ with
        | error e' => exact ⟨e', rfl⟩
        | ok _ => exact ⟨e, by rw [he]; rfl⟩

/-- Loading once the file's object is merged over the defaults: it fails on a file entry of the
wrong type, and otherwise gives the layered settings if they are valid. -/
theorem load_of_merged {file : Option ByteArray} {env : String → Option String}
    (hk : Fields.Sorted kvs)
    (hload : load file env = match ofValue (merge (toValue defaults) (.obj kvs)) with
      | .ok s => do validate (overrideBy env s); pure (overrideBy env s)
      | .error e => .error (.malformed e.message)) :
    ((∃ m, load file env = .error (.malformed m)) ↔
      ∃ f v, fileEntry (some kvs) f = some v ∧ ¬ f.Accepts v) ∧
    ((∀ f v, fileEntry (some kvs) f = some v → f.Accepts v) →
      load file env = (validate (layered (some kvs) env)).map fun _ => layered (some kvs) env) := by
  have hok : (∀ f v, fileEntry (some kvs) f = some v → f.Accepts v) →
      load file env = (validate (layered (some kvs) env)).map fun _ => layered (some kvs) env :=
    fun h => by
      rw [hload, ofValue_merged_ok hk h]
      dsimp only
      rw [validate_then, overrideBy_fileLayer]
  refine ⟨⟨fun ⟨m, hm⟩ => ?_, fun ⟨f, v, hv, hn⟩ => ?_⟩, hok⟩
  · -- with every entry of its type, loading fails only by `validate`, never on the file
    by_contra hall
    simp only [not_exists, not_and, not_not] at hall
    rw [hok hall] at hm
    cases hval : validate (layered (some kvs) env) with
    | ok _ => rw [hval] at hm; cases hm
    | error e =>
      rw [hval] at hm
      obtain ⟨m', rfl⟩ := validate_error hval
      cases hm
  · obtain ⟨e, he⟩ := ofValue_merged_error hk hv hn
    exact ⟨e.message, by rw [hload, he]⟩

/-- Layered settings. For a settings file that is absent or is UTF-8 text holding a JSON
object `F`, and any environment: loading fails with a JSON error exactly when a field's key in
`F` holds a value other than `null` of the wrong type, and otherwise it gives the layered
settings (the environment's value, else the file's, else the default) if they are valid and
fails with the error of the first validity rule they break, an invalid value. -/
theorem load_layers (env : String → Option String) (file : Option ByteArray)
    (F : Option (List (String × Value)))
    (hF : file = none ∧ F = none ∨ ∃ bytes text kvs, file = some bytes ∧
      String.fromUTF8? bytes = some text ∧ Value.ofText text = .ok (.obj kvs) ∧ F = some kvs) :
    ((∃ m, load file env = .error (.malformed m)) ↔
      ∃ f v, fileEntry F f = some v ∧ ¬ f.Accepts v) ∧
    ((∀ f v, fileEntry F f = some v → f.Accepts v) →
      load file env = (validate (layered F env)).map fun _ => layered F env) ∧
    ∀ e, validate (layered F env) = .error e → ∃ m, e = .invalidValue m := by
  suffices h : ((∃ m, load file env = .error (.malformed m)) ↔
      ∃ f v, fileEntry F f = some v ∧ ¬ f.Accepts v) ∧
      ((∀ f v, fileEntry F f = some v → f.Accepts v) →
        load file env = (validate (layered F env)).map fun _ => layered F env) from
    ⟨h.1, h.2, fun _ => validate_error⟩
  rcases hF with ⟨rfl, rfl⟩ | ⟨bytes, text, kvs, rfl, hutf, htext, rfl⟩
  · -- without a file the defaults are read as they are: as an empty object merged over them
    exact @load_of_merged [] none env List.Pairwise.nil rfl
  · refine load_of_merged (Fields.Sorted.of_value (Value.Sorted.of_text htext)) ?_
    simp only [load, hutf, htext, pure_bind]
    cases ofValue (merge (toValue defaults) (.obj kvs)) <;> rfl

/-- A file setting the session timeout to 0, which no settings may have, repaired by the
environment's 5000: loading gives that timeout and the defaults elsewhere. -/
theorem load_layers_env_repairs_file :
    String.fromUTF8? "\x7b\"sessionTimeoutMs\":0\x7d".toUTF8 = some "\x7b\"sessionTimeoutMs\":0\x7d" ∧
    Value.ofText "\x7b\"sessionTimeoutMs\":0\x7d" =
      .ok (.obj [("sessionTimeoutMs", .num (.nat 0))]) ∧
    load (some "\x7b\"sessionTimeoutMs\":0\x7d".toUTF8)
        (fun name => if name = sessionTimeoutVar then some "5000" else none) =
      .ok ⟨none, 5000, defaultReconnectIntervalMs, none⟩ := by
  have hutf : String.fromUTF8? "\x7b\"sessionTimeoutMs\":0\x7d".toUTF8 =
      some "\x7b\"sessionTimeoutMs\":0\x7d" := by
    with_unfolding_all rfl
  have htext : Value.ofText "\x7b\"sessionTimeoutMs\":0\x7d" =
      .ok (.obj [("sessionTimeoutMs", .num (.nat 0))]) := by
    with_unfolding_all rfl
  obtain ⟨-, hload, -⟩ := load_layers
    (fun name => if name = sessionTimeoutVar then some "5000" else none) _ _
    (.inr ⟨_, _, _, rfl, hutf, htext, rfl⟩)
  refine ⟨hutf, htext, ?_⟩
  rw [hload fun f v hv => ?_]
  · rfl
  · cases f <;> simp [fileEntry, Fields.get?_cons, Field.key] at hv
    exact ⟨0, hv.1.symm⟩

end Coordination.Settings
