import Nclav.Guarantees.AliasScope
import Nclav.Guarantees.Creation

/-!
# The outputs of an import in templates

The reconciler keeps the handle that an import was answered with and drops the outputs; a
template reads them again from the `outputs` of that handle. The GCP driver puts them there. The
others keep them elsewhere, so that the tokens of their imports stay as they are written.
-/

namespace Nclav

open Effect
open Serde (Value)

/-! ## A template of one token -/

/-- No end of a token within, no white space around. -/
structure CleanKey (s : String) : Prop where
  noEnd : splitAtPair '}' s.toList = none
  head : ∀ c ∈ s.toList.head?, isWhitespace c = false
  last : ∀ c ∈ s.toList.getLast?, isWhitespace c = false

/-- A key that begins with `a` and ends with `b`. -/
theorem CleanKey.of_ends {s : String} {a b : Char} (noEnd : splitAtPair '}' s.toList = none)
    (head : s.toList.head? = some a) (last : s.toList.getLast? = some b)
    (ha : isWhitespace a = false) (hb : isWhitespace b = false) : CleanKey s where
  noEnd := noEnd
  head c hc := by
    rw [head] at hc
    obtain rfl := Option.some.inj hc
    exact ha
  last c hc := by
    rw [last] at hc
    obtain rfl := Option.some.inj hc
    exact hb

/-- An alias that a token can name. -/
structure CleanAlias (s : String) : Prop extends CleanKey s where
  noDot : '.' ∉ s.toList

/-- The text between the braces of a token. -/
def tokenInner (alias_ k : String) : List Char := ' ' :: (alias_.toList ++ '.' :: k.toList) ++ [' ']

/-- The template that asks for the output `k` of the import `alias_`. -/
def importToken (alias_ k : String) : String :=
  String.ofList ('{' :: '{' :: (tokenInner alias_ k ++ ['}', '}']))

/-- Two texts without a pair, joined by another character, have none. -/
theorem splitAtPair_append_cons {d c : Char} (hc : c ≠ d) {xs ys : List Char}
    (hxs : splitAtPair d xs = none) (hys : splitAtPair d ys = none) :
    splitAtPair d (xs ++ c :: ys) = none := by
  have hcons : splitAtPair d (c :: ys) = none := by
    cases ys with
    | nil => rfl
    | cons y ys =>
      rw [splitAtPair, if_neg fun h => hc h.1, hys]
      rfl
  induction xs with
  | nil => exact hcons
  | cons x xs ih =>
    cases xs with
    | nil =>
      show splitAtPair d (x :: c :: ys) = none
      rw [splitAtPair, if_neg fun h => hc h.2, hcons]
      rfl
    | cons y xs =>
      rw [splitAtPair] at hxs
      by_cases hd : x = d ∧ y = d
      · rw [if_pos hd] at hxs
        cases hxs
      · rw [if_neg hd, Option.map_eq_none_iff] at hxs
        have hrest := ih hxs
        rw [List.cons_append] at hrest
        rw [List.cons_append, List.cons_append, splitAtPair, if_neg hd, hrest]
        rfl

/-- A text without a pair is what stands before the first one. -/
theorem splitAtPair_append_pair {d c : Char} (hc : c ≠ d) {xs rest : List Char}
    (hxs : splitAtPair d (xs ++ [c]) = none) :
    splitAtPair d (xs ++ [c] ++ d :: d :: rest) = some (xs ++ [c], rest) := by
  induction xs with
  | nil =>
    show splitAtPair d (c :: d :: d :: rest) = some ([c], rest)
    rw [splitAtPair, if_neg fun h => hc h.1, splitAtPair, if_pos ⟨rfl, rfl⟩]
    rfl
  | cons x xs ih =>
    obtain ⟨y, ys, hys⟩ : ∃ y ys, xs ++ [c] = y :: ys := by
      cases xs with
      | nil => exact ⟨c, [], rfl⟩
      | cons y ys => exact ⟨y, ys ++ [c], rfl⟩
    rw [List.cons_append, hys, splitAtPair] at hxs
    rw [hys] at ih
    by_cases hd : x = d ∧ y = d
    · rw [if_pos hd] at hxs
      cases hxs
    · rw [if_neg hd, Option.map_eq_none_iff] at hxs
      have hrest := ih hxs
      rw [List.cons_append] at hrest
      rw [List.cons_append, hys, List.cons_append, List.cons_append, splitAtPair, if_neg hd, hrest]
      rfl

/-- White space around a text that has none at its ends is what trimming takes away. -/
theorem trim_spaced {cs : List Char} (hhead : ∀ c ∈ cs.head?, isWhitespace c = false)
    (hlast : ∀ c ∈ cs.getLast?, isWhitespace c = false) : trim (' ' :: cs ++ [' ']) = cs := by
  have hspace : ∀ c ∈ [' '], isWhitespace c = true :=
    List.forall_mem_singleton.mpr (by decide)
  exact (trim_blanks hspace hspace).trans (trim_of_ends hhead hlast)

variable {alias_ k : String}

theorem ofInner_tokenInner (halias : CleanAlias alias_) (hk : CleanKey k) :
    Token.ofInner (tokenInner alias_ k) = .import_ alias_ k := by
  have htrim : trim (tokenInner alias_ k) = alias_.toList ++ '.' :: k.toList := by
    refine trim_spaced (fun c hc => ?_) fun c hc => ?_
    · cases hcs : alias_.toList with
      | nil =>
        rw [hcs] at hc
        obtain rfl := Option.some.inj hc
        decide
      | cons a as =>
        refine halias.head c ?_
        rw [hcs] at hc ⊢
        exact hc
    · cases hcs : k.toList with
      | nil =>
        rw [hcs, List.getLast?_append] at hc
        obtain rfl := Option.some.inj hc
        decide
      | cons a as =>
        refine hk.last c ?_
        rw [hcs] at hc ⊢
        simpa [List.getLast?_append, List.getLast?_cons] using hc
  have hne : ∀ c ∈ alias_.toList, (decide (c ≠ '.')) = true := fun c hc =>
    decide_eq_true fun h => halias.noDot (h ▸ hc)
  rw [Token.ofInner, htrim]
  have hcontains : (alias_.toList ++ '.' :: k.toList).contains '.' = true := by simp
  simp only [hcontains, if_true]
  rw [List.takeWhile_append_of_pos hne, List.dropWhile_append_of_pos hne]
  simp

/-- A token is replaced by the output of the handle, or stays as it is. -/
theorem resolveTemplate_importToken (halias : CleanAlias alias_) (hk : CleanKey k) (st : EnclaveState)
    (vars : HashMap String String) :
    resolveTemplate (importToken alias_ k) st vars =
      ((st.importHandles[alias_]?).bind (handleOutput · k)).getD (importToken alias_ k) := by
  have hlist : (importToken alias_ k).toList = '{' :: '{' :: (tokenInner alias_ k ++ ['}', '}']) := by
    rw [importToken, String.toList_ofList]
  have hinner : splitAtPair '}' (tokenInner alias_ k) = none := by
    have hmiddle : splitAtPair '}' ([] ++ ' ' :: (alias_.toList ++ '.' :: k.toList)) = none :=
      splitAtPair_append_cons (by decide) rfl
        (splitAtPair_append_cons (by decide) halias.noEnd hk.noEnd)
    exact splitAtPair_append_cons (by decide) hmiddle rfl
  have hclose : splitAtPair '}' (tokenInner alias_ k ++ ['}', '}']) =
      some (tokenInner alias_ k, []) :=
    splitAtPair_append_pair (by decide) hinner
  have hlength : (importToken alias_ k).length = (tokenInner alias_ k ++ ['}', '}']).length + 1 + 1 := by
    rw [← String.length_toList, hlist, List.length_cons, List.length_cons]
  rw [resolveTemplate, hlength, hlist, resolveFrom, splitAtPair, if_pos ⟨rfl, rfl⟩]
  simp only [hclose, ofInner_tokenInner halias hk, Token.value]
  rcases (st.importHandles[alias_]?).bind (handleOutput · k) with _ | v
  · simp [resolveFrom, splitAtPair, importToken]
  · simp [resolveFrom, splitAtPair]

/-! ## What a driver owes -/

/-- In every state that keeps the handle under the alias, the token of each output resolves to
it. -/
def Usable (alias_ : String) (result : ProvisionResult) : Prop :=
  ∀ st : EnclaveState, st.importHandles[alias_]? = some result.handle →
    ∀ (vars : HashMap String String) (k v : String), CleanKey k → result.outputs[k]? = some v →
      resolveTemplate (importToken alias_ k) st vars = v

/-- What the token of an output comes to with this handle: the output of the handle, or the token
itself. -/
def Handle.reads (h : Handle) (alias_ k : String) : String :=
  (handleOutput h k).getD (importToken alias_ k)

theorem usable_iff (enc : Enclave) (halias : CleanAlias alias_) {result : ProvisionResult} :
    Usable alias_ result ↔ ∀ k v : String, CleanKey k → result.outputs[k]? = some v →
      Handle.reads result.handle alias_ k = v := by
  constructor
  · intro h k v hk hv
    let st : EnclaveState := { EnclaveState.new enc with
      importHandles := (∅ : HashMap String Handle).insert alias_ result.handle }
    have hst : st.importHandles[alias_]? = some result.handle := by
      rw [HashMap.get?_insert, if_pos rfl]
    have hread := h st hst ∅ k v hk hv
    rw [resolveTemplate_importToken halias hk, hst] at hread
    exact hread
  · intro h st hst vars k v hk hv
    rw [resolveTemplate_importToken halias hk, hst]
    exact h k v hk hv

/-- A handle without outputs leaves every token as it is. -/
theorem reads_of_none {h : Handle} (hnone : h.get? "outputs" = none) :
    h.reads alias_ k = importToken alias_ k := by
  rw [Handle.reads, handleOutput, hnone]
  rfl

/-- A handle with the outputs in it reads them. -/
theorem usable_of_outputs (enc : Enclave) (halias : CleanAlias alias_) {result : ProvisionResult}
    (h : result.handle.get? "outputs" = some (mapValue result.outputs)) :
    Usable alias_ result := by
  rw [usable_iff enc halias]
  intro k v _ hv
  rw [Handle.reads, handleOutput, h, Option.bind_some, mapValue, Value.get?_object,
    lookup_mapValue, hv]
  rfl

/-! ## When a driver meets it -/

variable {im : Import} {importer : Enclave} {exportHandle : Handle} {existing : Option Handle}

/-- The GCP driver puts the outputs into the handle. -/
theorem GcpDriver.provisionImport_usable (d : GcpDriver) (halias : CleanAlias im.alias_) :
    Returns (Usable im.alias_) (d.provisionImport importer im exportHandle existing) := by
  have hresult : ∀ type fields outputs, (∀ f ∈ fields, f.1 ≠ "outputs") →
      Usable im.alias_ (d.importResult type importer im fields outputs) := by
    intro type fields outputs hfields
    refine usable_of_outputs importer halias ?_
    have hnone : fields.lookup "outputs" = none := by
      rw [List.lookup_eq_none_iff]
      exact fun f hf => by simpa using Ne.symm (hfields f hf)
    simp [importResult, Value.lookup_cons_eq_ite, List.lookup_append, hnone, mapValue]
  refine .bind_right fun token => ?_
  show Returns _ (if strOr exportHandle "type" "" = "http" then _
    else if strOr exportHandle "type" "" = "tcp" then _
    else if strOr exportHandle "type" "" = "queue" then _ else _)
  split
  · exact .pure (hresult _ _ _ (by simp))
  split
  · refine returns_orThrow fun serviceAttachment _ => ?_
    split
    · exact .throw
    · refine returns_orThrow fun zone _ => ?_
      exact .bind_right fun ip => .pure (hresult _ _ _ (by simp))
  split
  · exact .bind_right fun _ => .pure (hresult _ _ _ (by simp))
  · exact .throw

/-- The texts that an export handle on the local driver carries are tokens of themselves. -/
def LocalDriver.Reports (im : Import) (exportHandle : Handle) : Prop :=
  ∀ k v : String, CleanKey k → (exportedOutputs exportHandle)[k]? = some v → v = importToken im.alias_ k

theorem LocalDriver.provisionImport_usable_iff (halias : CleanAlias im.alias_) :
    Returns (E := CloudCall) (R := CloudResp) (Usable im.alias_)
        (ExceptT.mk (.ret (provisionImport importer im exportHandle existing))) ↔
      Reports im exportHandle := by
  have hreads : ∀ result, provisionImport importer im exportHandle existing = .ok result →
      ∀ k, Handle.reads result.handle im.alias_ k = importToken im.alias_ k := by
    rintro _ ⟨⟩ k
    exact reads_of_none (by simp [Value.lookup_cons_eq_ite])
  constructor
  · intro h k v hk hv
    have husable := (usable_iff importer halias).mp (h [] _ rfl) k v hk hv
    exact husable.symm.trans (hreads _ rfl k)
  · rintro h log _ ⟨⟩
    refine (usable_iff importer halias).mpr fun k v hk hv => ?_
    rw [hreads _ rfl k]
    exact (h k v hk hv).symm

/-- On AWS: the handle there is is returned without outputs, the type of the export is unknown, or
the addresses in its handle are tokens of themselves. -/
def AwsDriver.Reports (im : Import) (exportHandle : Handle) (existing : Option Handle) : Prop :=
  (∃ h, existing.filter isHandle = some h) ∨
    strOr exportHandle "type" "http" ∉ ["http", "tcp", "queue"] ∨
    ∀ k ∈ ["endpoint_url", "queue_url"], ∀ v, (exportHandle.idx k).asStr = some v →
      v = importToken im.alias_ k

theorem clean_endpointUrl : CleanKey "endpoint_url" := .of_ends (by decide) rfl rfl (by decide) (by decide)

theorem clean_queueUrl : CleanKey "queue_url" := .of_ends (by decide) rfl rfl (by decide) (by decide)

theorem AwsDriver.get?_addressOutputs (endpointUrl queueUrl : Option String) (k : String) :
    (addressOutputs endpointUrl queueUrl)[k]? =
      if k = "endpoint_url" then endpointUrl else if k = "queue_url" then queueUrl else none := by
  have hne : "endpoint_url" ≠ "queue_url" := by decide
  rcases endpointUrl with _ | url <;> rcases queueUrl with _ | queue <;>
    simp only [addressOutputs, HashMap.get?_insert, Std.ExtTreeMap.getElem?_empty]
  all_goals grind

/-- A handle that an import on AWS is answered with has no outputs. -/
theorem AwsDriver.get?_importHandle {exportType : String} {h : Handle}
    (hh : importHandle im exportHandle exportType = some h) : h.get? "outputs" = none := by
  rw [importHandle] at hh
  split at hh
  · obtain rfl := Option.some.inj hh
    simp [Value.lookup_cons_eq_ite]
  split at hh
  · obtain rfl := Option.some.inj hh
    simp [Value.lookup_cons_eq_ite]
  · cases hh

/-- There is a handle for the three types of exports. -/
theorem AwsDriver.importHandle_eq_none {exportType : String} :
    importHandle im exportHandle exportType = none ↔ exportType ∉ ["http", "tcp", "queue"] := by
  rw [importHandle]
  split
  · rename_i htype
    rcases htype with rfl | rfl <;> simp
  split
  · rename_i htype
    simp [htype]
  · rename_i hhttp hqueue
    simp_all

theorem AwsDriver.provisionImport_usable_iff (halias : CleanAlias im.alias_) :
    Returns (Usable im.alias_) (provisionImport importer im exportHandle existing) ↔
      Reports im exportHandle existing := by
  rw [provisionImport, Reports]
  rcases hexisting : existing.filter isHandle with _ | h
  · rcases hhandle : importHandle im exportHandle (strOr exportHandle "type" "http") with _ | handle
    · refine iff_of_true ?_ (.inr (.inl (importHandle_eq_none.mp hhandle)))
      exact returns_orThrow fun handle hsome => by rw [hhandle] at hsome; cases hsome
    · have htype : ¬ strOr exportHandle "type" "http" ∉ ["http", "tcp", "queue"] := by
        intro hunknown
        rw [importHandle_eq_none.mpr hunknown] at hhandle
        cases hhandle
      have hreads : ∀ k, Handle.reads handle im.alias_ k = importToken im.alias_ k :=
        fun k => reads_of_none (get?_importHandle hhandle)
      let result : ProvisionResult := ⟨handle, addressOutputs (exportHandle.idx "endpoint_url").asStr
        (exportHandle.idx "queue_url").asStr⟩
      have houtputs : ∀ k ∈ ["endpoint_url", "queue_url"],
          result.outputs[k]? = (exportHandle.idx k).asStr := by
        intro k hk
        rw [show result.outputs = addressOutputs _ _ from rfl, get?_addressOutputs]
        rcases List.mem_pair.mp hk with rfl | rfl
        · rfl
        · rw [if_neg (by decide), if_pos rfl]
      constructor
      · intro hreturns
        refine .inr (.inr fun k hk v hv => ?_)
        have husable : Usable im.alias_ result := by
          dsimp only at hreturns
          rw [hhandle] at hreturns
          exact hreturns [] result rfl
        rw [← houtputs k hk] at hv
        have hclean : CleanKey k := by
          rcases List.mem_pair.mp hk with rfl | rfl
          · exact clean_endpointUrl
          · exact clean_queueUrl
        rw [← (usable_iff importer halias).mp husable k v hclean hv]
        exact hreads k
      · rintro (⟨h, ⟨⟩⟩ | hunknown | htokens)
        · exact absurd hunknown htype
        · refine returns_orThrow fun handle' hsome => .pure ((usable_iff importer halias).mpr ?_)
          obtain rfl := Option.some.inj (hhandle.symm.trans hsome)
          intro k v _ hv
          rw [hreads k]
          have hk : k ∈ ["endpoint_url", "queue_url"] := by
            rw [get?_addressOutputs] at hv
            grind
          rw [houtputs k hk] at hv
          exact (htokens k hk v hv).symm
  · refine iff_of_true (.pure ?_) (.inl ⟨h, rfl⟩)
    intro st _ vars k v _ hv
    cases hv

/-- On Azure: the handle there is has under its outputs what is read from its other fields, or
there is none and the request is refused. -/
def AzureDriver.Reports (importer : Enclave) (im : Import) (exportHandle : Handle)
    (existing : Option Handle) : Prop :=
  match existing.filter (isHandleOf "import") with
  | some h =>
    ((h.idx "type").asStr ∈ [some "http", some "tcp"] → ∀ ip, (h.idx "private_ip").asStr = some ip →
      h.reads im.alias_ "hostname" = ip) ∧
    ((h.idx "type").asStr = some "queue" → ∀ url, (h.idx "queue_url").asStr = some url →
      h.reads im.alias_ "queue_url" = url)
  | none =>
    importerSubscription importer existing = "" ∨
      ((strOr exportHandle "type" "http" ∈ ["http", "tcp"] →
          (exportHandle.idx "pls_resource_id").asStr = none) ∧
        (strOr exportHandle "type" "http" = "queue" →
          (exportHandle.idx "service_bus_resource_id").asStr = none))

theorem clean_hostname : CleanKey "hostname" := .of_ends (by decide) rfl rfl (by decide) (by decide)

theorem clean_port : CleanKey "port" := .of_ends (by decide) rfl rfl (by decide) (by decide)

/-- The outputs that are read from a handle there is. -/
theorem AzureDriver.usable_importOutputsFromHandle (importer : Enclave) (halias : CleanAlias im.alias_)
    (h : Handle) :
    Usable im.alias_ ⟨h, importOutputsFromHandle h⟩ ↔
      ((h.idx "type").asStr ∈ [some "http", some "tcp"] →
        ∀ ip, (h.idx "private_ip").asStr = some ip → h.reads im.alias_ "hostname" = ip) ∧
      ((h.idx "type").asStr = some "queue" →
        ∀ url, (h.idx "queue_url").asStr = some url → h.reads im.alias_ "queue_url" = url) := by
  rw [usable_iff importer halias]
  have hget : ∀ k v : String, (importOutputsFromHandle h)[k]? = some v ↔
      ((h.idx "type").asStr ∈ [some "http", some "tcp"] ∧ k = "hostname" ∧
        (h.idx "private_ip").asStr = some v) ∨
      ((h.idx "type").asStr = some "queue" ∧ k = "queue_url" ∧
        (h.idx "queue_url").asStr = some v) := by
    intro k v
    rw [importOutputsFromHandle]
    split
    · rename_i htype
      rw [htype]
      rcases (h.idx "private_ip").asStr with _ | ip
      · simp
      · simp only [HashMap.get?_insert]
        grind
    · rename_i htype
      rw [htype]
      rcases (h.idx "private_ip").asStr with _ | ip
      · simp
      · simp only [HashMap.get?_insert]
        grind
    · rename_i htype
      rw [htype]
      rcases (h.idx "queue_url").asStr with _ | url
      · simp
      · simp only [HashMap.get?_insert]
        grind
    · rename_i hhttp htcp hqueue
      simp [show (h.idx "type").asStr ≠ some "http" from hhttp,
        show (h.idx "type").asStr ≠ some "tcp" from htcp,
        show (h.idx "type").asStr ≠ some "queue" from hqueue]
  constructor
  · intro hall
    constructor
    · intro htype ip hip
      exact hall "hostname" ip clean_hostname ((hget _ _).mpr (.inl ⟨htype, rfl, hip⟩))
    · intro htype url hurl
      exact hall "queue_url" url clean_queueUrl ((hget _ _).mpr (.inr ⟨htype, rfl, hurl⟩))
  · rintro ⟨hservice, hqueue⟩ k v _ hv
    rcases (hget k v).mp hv with ⟨htype, rfl, hip⟩ | ⟨htype, rfl, hurl⟩
    · exact hservice htype v hip
    · exact hqueue htype v hurl

/-- The ARM API accepts every PUT. -/
def armAccepts : (c : CloudCall) → Option (CloudResp c)
  | .armPut _ _ => some (.ok (200, .null, none))
  | _ => none

/-- An import of a service may succeed; its result has a port that its handle does not report. -/
theorem AzureDriver.createServiceImport_ok (d : AzureDriver) (importer : Enclave) (im : Import)
    (exportType : String) {importerSub pls : String}
    (hpls : (exportHandle.idx "pls_resource_id").asStr = some pls) (hsub : importerSub ≠ "") :
    ∃ result log, Prog.Exec recorder
        (d.createServiceImport importer im exportHandle exportType importerSub).run [] (.ok result) log ∧
      result.handle.get? "outputs" = none ∧ ∃ n : Nat, result.outputs["port"]? = some (toString n) := by
  have hempty : importerSub.isEmpty = false := by simpa using hsub
  have hresult : ∀ endpoint ip recordName hostname port,
      let result := endpointResult exportType importerSub endpoint ip recordName hostname port
      result.handle.get? "outputs" = none ∧ ∃ n : Nat, result.outputs["port"]? = some (toString n) := by
    intro endpoint ip recordName hostname port
    refine ⟨by simp [endpointResult, Value.lookup_cons_eq_ite], port, ?_⟩
    rw [endpointResult, HashMap.get?_insert, if_pos rfl]
  obtain ⟨recordName, hostname, log, hrun⟩ : ∃ recordName hostname log,
      Prog.tryRun recorder.next (fun _ => armAccepts)
          (d.createServiceImport importer im exportHandle exportType importerSub).run [] =
        some (.ok (endpointResult exportType importerSub .null "10.0.0.0" recordName hostname
          ((asU64 (exportHandle.idx "port")).getD 443 % 2 ^ 16)), log) := by
    rw [createServiceImport, hpls, hempty]
    rcases importer.zone with _ | zone
    · exact ⟨_, _, _, rfl⟩
    · exact ⟨_, _, _, rfl⟩
  exact ⟨_, log, Prog.exec_tryRun (fun _ _ _ _ => trivial) hrun, hresult _ _ _ _ _⟩

/-- So may that of a queue. -/
theorem AzureDriver.createQueueImport_ok (d : AzureDriver) (importer : Enclave) (im : Import)
    {importerSub id : String}
    (hid : (exportHandle.idx "service_bus_resource_id").asStr = some id) (hsub : importerSub ≠ "") :
    ∃ result log, Prog.Exec recorder
        (d.createQueueImport importer im exportHandle importerSub).run [] (.ok result) log ∧
      result.handle.get? "outputs" = none ∧
      ∃ ns topic, result.outputs["queue_url"]? = some (queueUrl ns topic) := by
  have hempty : importerSub.isEmpty = false := by simpa using hsub
  obtain ⟨log, hrun⟩ : ∃ log, Prog.tryRun recorder.next (fun _ => armAccepts)
      (d.createQueueImport importer im exportHandle importerSub).run [] =
        some (.ok (queueResult im exportHandle importerSub), log) := by
    rw [createQueueImport, hid, hempty]
    exact ⟨_, rfl⟩
  refine ⟨_, log, Prog.exec_tryRun (fun _ _ _ _ => trivial) hrun, ?_,
    strOr exportHandle "service_bus_namespace_name" "", strOr exportHandle "topic_name" "", ?_⟩
  · simp [queueResult, Value.lookup_cons_eq_ite]
  · rw [queueResult, HashMap.get?_insert, if_pos rfl]

/-- A number is no token. -/
theorem toString_ne_importToken (n : Nat) : toString n ≠ importToken alias_ k := by
  intro h
  have hmem : '{' ∈ (toString n).toList := by
    rw [h, importToken, String.toList_ofList]
    exact List.mem_cons_self ..
  have hdigit := Nat.isDigit_of_mem_toDigits (by decide) (by decide)
    (show '{' ∈ Nat.toDigits 10 n by simpa [Nat.toString_eq_ofList_toDigits] using hmem)
  exact absurd hdigit (by decide)

/-- Nor is the address of a Service Bus topic: it has three dots. -/
theorem queueUrl_ne_importToken (halias : CleanAlias alias_) (ns topic : String) :
    AzureDriver.queueUrl ns topic ≠ importToken alias_ "queue_url" := by
  intro h
  have hcount := congrArg (fun s => s.toList.count '.') h
  have halias0 : alias_.toList.count '.' = 0 := List.count_eq_zero.mpr halias.noDot
  have hk : "queue_url".toList.count '.' = 0 := by decide
  have hdomain : ".servicebus.windows.net/".toList.count '.' = 3 := by decide
  simp only [AzureDriver.queueUrl, importToken, tokenInner, String.toList_ofList,
    String.toList_append, List.count_append, List.count_cons] at hcount
  simp only [toString, halias0, hk, hdomain] at hcount
  simp at hcount
  omega

/-- A result that reports no outputs in its handle is usable only if each is its own token. -/
theorem Usable.eq_importToken (enc : Enclave) (halias : CleanAlias alias_) {result : ProvisionResult}
    (h : Usable alias_ result) (hnone : result.handle.get? "outputs" = none) {v : String}
    (hk : CleanKey k) (hv : result.outputs[k]? = some v) : v = importToken alias_ k := by
  rw [← (usable_iff enc halias).mp h k v hk hv, reads_of_none hnone]

theorem AzureDriver.createImport_usable_iff (d : AzureDriver) (halias : CleanAlias im.alias_) :
    Returns (Usable im.alias_) (d.createImport importer im exportHandle existing) ↔
      importerSubscription importer existing = "" ∨
        ((strOr exportHandle "type" "http" ∈ ["http", "tcp"] →
            (exportHandle.idx "pls_resource_id").asStr = none) ∧
          (strOr exportHandle "type" "http" = "queue" →
            (exportHandle.idx "service_bus_resource_id").asStr = none)) := by
  rw [createImport]
  generalize strOr exportHandle "type" "http" = exportType
  generalize hsub : importerSubscription importer existing = importerSub
  show Returns _ (if exportType = "http" ∨ exportType = "tcp" then _
    else if exportType = "queue" then _ else _) ↔ _
  split
  · rename_i htype
    have hqueue : exportType ≠ "queue" := by
      rintro rfl
      exact absurd htype (by decide)
    constructor
    · intro hreturns
      by_cases hempty : importerSub = ""
      · exact .inl hempty
      · refine .inr ⟨fun _ => ?_, fun h => absurd h hqueue⟩
        rcases hpls : (exportHandle.idx "pls_resource_id").asStr with _ | pls
        · rfl
        · obtain ⟨result, log, hrun, hnone, n, hport⟩ :=
            d.createServiceImport_ok importer im exportType hpls hempty
          have husable : Usable im.alias_ result := hrun.wp (hreturns []) result rfl
          exact absurd (husable.eq_importToken importer halias hnone clean_port hport)
            (toString_ne_importToken n)
    · intro h
      rw [createServiceImport]
      refine returns_orThrow fun pls hpls => ?_
      have hempty : importerSub = "" := h.resolve_right fun hrefused => by
        rw [hrefused.1 (List.mem_pair.mpr htype)] at hpls
        cases hpls
      rw [hempty]
      exact .throw
  split
  · rename_i hother htype
    have hservice : exportType ∉ ["http", "tcp"] := fun h => hother (List.mem_pair.mp h)
    constructor
    · intro hreturns
      by_cases hempty : importerSub = ""
      · exact .inl hempty
      · refine .inr ⟨fun h => absurd h hservice, fun _ => ?_⟩
        rcases hid : (exportHandle.idx "service_bus_resource_id").asStr with _ | id
        · rfl
        · obtain ⟨result, log, hrun, hnone, ns, topic, hurl⟩ :=
            d.createQueueImport_ok importer im hid hempty
          have husable : Usable im.alias_ result := hrun.wp (hreturns []) result rfl
          exact absurd (husable.eq_importToken importer halias hnone clean_queueUrl hurl)
            (queueUrl_ne_importToken halias ns topic)
    · intro h
      rw [createQueueImport]
      refine returns_orThrow fun id hid => ?_
      have hempty : importerSub = "" := h.resolve_right fun hrefused => by
        rw [hrefused.2 htype] at hid
        cases hid
      rw [hempty]
      exact .throw
  · rename_i hother hqueue
    refine iff_of_true .throw (.inr ⟨fun h => absurd (List.mem_pair.mp h) hother, fun h => ?_⟩)
    exact absurd h hqueue

theorem AzureDriver.provisionImport_usable_iff (d : AzureDriver) (halias : CleanAlias im.alias_) :
    Returns (Usable im.alias_) (d.provisionImport importer im exportHandle existing) ↔
      Reports importer im exportHandle existing := by
  rw [provisionImport, Reports]
  rcases existing.filter (isHandleOf "import") with _ | h
  · exact d.createImport_usable_iff halias
  · dsimp only
    rw [← usable_importOutputsFromHandle importer halias]
    exact ⟨fun hreturns => hreturns [] _ rfl, Returns.pure⟩

/-! ## What an import produces can be used in templates -/

/-- When the outputs of an import on a cloud can be read from its handle, whatever the cloud
answers. -/
def ReportsOutputs (cloud : CloudTarget) (importer : Enclave) (im : Import) (exportHandle : Handle)
    (existing : Option Handle) : Prop :=
  match cloud with
  | .local => LocalDriver.Reports im exportHandle
  | .gcp => True
  | .azure => AzureDriver.Reports importer im exportHandle existing
  | .aws => AwsDriver.Reports im exportHandle existing

theorem import_usable_iff (ds : CloudDrivers) (cloud : CloudTarget) (importer : Enclave) (im : Import)
    (exportHandle : Handle) (existing : Option Handle) (halias : CleanAlias im.alias_) :
    Returns (Usable im.alias_) (ds.provisionImport cloud importer im exportHandle existing) ↔
      ReportsOutputs cloud importer im exportHandle existing := by
  cases cloud with
  | «local» => exact LocalDriver.provisionImport_usable_iff halias
  | gcp =>
    show Returns _ (ds.gcp.provisionImport importer im exportHandle existing) ↔ True
    exact iff_of_true (ds.gcp.provisionImport_usable halias) trivial
  | azure => exact ds.azure.provisionImport_usable_iff halias
  | aws =>
    show Returns _ (AwsDriver.provisionImport importer im exportHandle existing) ↔ _
    exact AwsDriver.provisionImport_usable_iff halias

/-- An import of an HTTP export. -/
def apiImport : Import := ⟨⟨"a"⟩, "api", "svc"⟩

/-- The handle of an HTTP export with its outputs. -/
def apiHandle : Handle := .object
  [("driver", .str "local"), ("kind", .str "export"),
   ("outputs", .object [("hostname", .str "api.internal")])]

theorem cleanAlias_apiImport : CleanAlias apiImport.alias_ :=
  { CleanKey.of_ends (by decide) rfl rfl (by decide) (by decide) with noDot := by decide }

/-- The handle of an HTTP export on GCP with its outputs. -/
def gcpApiHandle : Handle := .object
  [("driver", .str "gcp"), ("kind", .str "export"), ("type", .str "http"),
   ("outputs", .object [("hostname", .str "api.internal")])]

/-- There is always a token. -/
def gcpToken : (c : CloudCall) → Option (CloudResp c)
  | .bearer => some (.ok "token")
  | _ => none

/-- On GCP the import is answered with the host name, and the token of it resolves. -/
theorem gcp_import_usable : ∃ result log,
    Prog.Exec recorder (plainClouds.provisionImport .gcp (plainEnclave "b" [] []) apiImport
      gcpApiHandle none).run [] (.ok result) log ∧
      result.outputs["hostname"]? = some "api.internal" ∧
      ∀ st : EnclaveState, st.importHandles[apiImport.alias_]? = some result.handle →
        ∀ vars, resolveTemplate (importToken apiImport.alias_ "hostname") st vars =
          "api.internal" := by
  obtain ⟨result, log, hrun, hhost⟩ : ∃ result log, Prog.tryRun recorder.next (fun _ => gcpToken)
      (plainClouds.provisionImport .gcp (plainEnclave "b" [] []) apiImport gcpApiHandle none).run
        [] = some (.ok result, log) ∧ result.outputs["hostname"]? = some "api.internal" :=
    ⟨_, _, rfl, by decide⟩
  have hexec := Prog.exec_tryRun (M := recorder) (fun _ _ _ _ => trivial) hrun
  have husable : Usable apiImport.alias_ result := hexec.wp ((import_usable_iff plainClouds .gcp
    (plainEnclave "b" [] []) apiImport gcpApiHandle none cleanAlias_apiImport).mpr trivial [])
    result rfl
  exact ⟨result, log, hexec, hhost, fun st hst vars => husable st hst vars _ _ clean_hostname hhost⟩

/-- On the local driver it does not: the import is answered with a host name, and the template that
asks for it is handed on as it is written. -/
theorem local_token_stays : ∃ result,
    LocalDriver.provisionImport (plainEnclave "b" [] []) apiImport apiHandle none = .ok result ∧
      result.outputs["hostname"]? = some "api.internal" ∧
      ∀ st : EnclaveState, st.importHandles[apiImport.alias_]? = some result.handle →
        ∀ vars, resolveTemplate (importToken apiImport.alias_ "hostname") st vars =
          importToken apiImport.alias_ "hostname" := by
  refine ⟨_, rfl, by decide, fun st hst vars => ?_⟩
  rw [resolveTemplate_importToken cleanAlias_apiImport clean_hostname, hst, Option.bind_some]
  refine reads_of_none ?_
  simp [Value.lookup_cons_eq_ite]

theorem import_not_usable : ¬ ∀ (ds : CloudDrivers) (cloud : CloudTarget) (importer : Enclave)
    (im : Import) (exportHandle : Handle) (existing : Option Handle), CleanAlias im.alias_ →
      Returns (Usable im.alias_) (ds.provisionImport cloud importer im exportHandle existing) := by
  intro h
  have hreturns := h plainClouds .local (plainEnclave "b" [] []) apiImport apiHandle none cleanAlias_apiImport
  have hreports := (LocalDriver.provisionImport_usable_iff cleanAlias_apiImport).mp hreturns
  exact absurd (hreports "hostname" "api.internal" clean_hostname (by decide)) (by decide)

end Nclav
