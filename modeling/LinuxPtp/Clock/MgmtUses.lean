import LinuxPtp.Clock.MgmtManage
import LinuxPtp.Wire.FirstTlv

/-!
# Uses of management data

The dispatchers count the TLVs of a management message but do not look at the type of
the one that is there, and the parser checks the length of the data for some
identifiers only.  This module proves when every use is of validated data.
-/

namespace LinuxPtp.Clock

open ByteOrder Access Wire Port Bmc

/-! ## Records of uses -/

section

variable {α β : Type}

/-- The program as a function. -/
def Handle.after (program : Handle α) (handling : Handling) : α × Handling :=
  program.run handling

/-- One program after the other. -/
theorem after_bind (program : Handle α) (next : α → Handle β) (handling : Handling) :
    Handle.after (program >>= next) handling =
      Handle.after (next (Handle.after program handling).1)
        (Handle.after program handling).2 :=
  rfl

theorem after_get (handling : Handling) :
    Handle.after get handling = (handling, handling) :=
  rfl

/-- The program keeps the record of uses and adds none but allowed ones. -/
def Records (allowed : MgmtUse → Prop) (program : Handle α) : Prop :=
  ∀ handling, ∃ uses, (∀ how ∈ uses, allowed how) ∧
    (Handle.after program handling).2.uses = handling.uses ++ uses

namespace Records

variable {allowed : MgmtUse → Prop}

theorem pure (value : α) : Records allowed (Pure.pure value : Handle α) :=
  fun _ => ⟨[], by simp, (List.append_nil _).symm⟩

theorem get : Records allowed (MonadState.get : Handle Handling) :=
  fun _ => ⟨[], by simp, (List.append_nil _).symm⟩

/-- A program that looks at the state first. -/
theorem get_bind {next : Handling → Handle β}
    (hnext : ∀ handling, ∃ uses, (∀ how ∈ uses, allowed how) ∧
      (Handle.after (next handling) handling).2.uses = handling.uses ++ uses) :
    Records allowed (MonadState.get >>= next) :=
  hnext

/-- An update that records no use. -/
theorem set_uses {update : Handling → Handling}
    (hkeeps : ∀ handling, (update handling).uses = handling.uses) :
    Records allowed (modify update : Handle PUnit) :=
  fun handling => ⟨[], by simp, by
    rw [List.append_nil]
    exact hkeeps handling⟩

/-- The second program need only record allowed uses after what the first can
return. -/
theorem bind_of {program : Handle α} {next : α → Handle β}
    (hprogram : Records allowed program)
    (hnext : ∀ handling,
      Records allowed (next (Handle.after program handling).1)) :
    Records allowed (program >>= next) := by
  intro handling
  obtain ⟨first, hfirst, heq⟩ := hprogram handling
  obtain ⟨second, hsecond, heq'⟩ :=
    hnext handling (Handle.after program handling).2
  refine ⟨first ++ second, ?_, ?_⟩
  · simpa [or_imp, forall_and] using ⟨hfirst, hsecond⟩
  · rw [← List.append_assoc, ← heq]
    exact heq'

/-- What both parts record is allowed. -/
theorem bind {program : Handle α} {next : α → Handle β}
    (hprogram : Records allowed program)
    (hnext : ∀ value, Records allowed (next value)) :
    Records allowed (program >>= next) :=
  hprogram.bind_of fun _ => hnext _

/-- Both branches count. -/
theorem ite {condition : Prop} [Decidable condition] {first second : Handle α}
    (hfirst : condition → Records allowed first)
    (hsecond : ¬condition → Records allowed second) :
    Records allowed (if condition then first else second) := by
  split
  · exact hfirst ‹_›
  · exact hsecond ‹_›

theorem use {how : MgmtUse} (hallowed : allowed how) :
    Records allowed (Clock.use how) :=
  fun _ => ⟨[how], by simpa using hallowed, rfl⟩

/-- A use that has been recorded stays. -/
theorem mem {program : Handle α} (hprogram : Records allowed program)
    {how : MgmtUse} {handling : Handling} (hused : how ∈ handling.uses) :
    how ∈ (Handle.after program handling).2.uses := by
  obtain ⟨uses, -, heq⟩ := hprogram handling
  rw [heq]
  exact List.mem_append_left _ hused

/-- What is allowed may be more. -/
theorem mono {weaker : MgmtUse → Prop} {program : Handle α}
    (hprogram : Records allowed program)
    (hweaker : ∀ how, allowed how → weaker how) : Records weaker program := by
  intro handling
  obtain ⟨uses, hallowed, heq⟩ := hprogram handling
  exact ⟨uses, fun how hhow => hweaker how (hallowed how hhow), heq⟩

end Records

end

/-! ## Handlers -/

def MgmtId.handlerSize : MgmtId → Option ℕ
  | .priority1 | .priority2 => some 2
  | .grandmasterSettingsNp => some GrandmasterSettingsNp.size
  | .subscribeEventsNp => some SubscribeEventsNp.size
  | .portDataSetNp => some PortDsNp.size
  | _ => none

/-- The size for the identifier that stands in the message. -/
def handlerSize (host : Host) (mem : Memory) : Option ℕ :=
  (MgmtId.ofCode (managementId host mem)).bind MgmtId.handlerSize

/-- What the dispatchers see to: data is applied by the handler of its identifier,
and not when the length is that of an empty body. -/
def Guarded (host : Host) (mem : Memory) : MgmtUse → Prop
  | .id => True
  | .data size =>
      handlerSize host mem = some size ∧ managementLength host mem ≠ 2

section

variable {host : Host} {allocate : ℕ → Bool} {mem : Memory}
variable {allowed : MgmtUse → Prop}

theorem requestMemory_after (handling : Handling) :
    Handle.after (requestMemory allocate) handling =
      (allocate handling.allocations,
        { handling with allocations := handling.allocations + 1 }) :=
  rfl

theorem requestMemory_records : Records allowed (requestMemory allocate) :=
  fun _ => ⟨[], by simp, (List.append_nil _).symm⟩

theorem answer_records (given : Answer) : Records allowed (answer given) :=
  .set_uses fun _ => rfl

theorem setChanged_records : Records allowed setChanged :=
  .set_uses fun _ => rfl

theorem hasChanged_records : Records allowed hasChanged :=
  .bind .get fun _ => .pure _

theorem hasChanged_uses (handling : Handling) :
    (Handle.after hasChanged handling).2.uses = handling.uses :=
  rfl

theorem readId_records (hid : allowed .id) : Records allowed (readId host mem) :=
  .bind (.use hid) fun _ => .pure _

/-- Reading the identifier yields the one in the message. -/
theorem Records.readId {β : Type} {next : ℕ → Handle β} (hid : allowed .id)
    (hnext : Records allowed (next (managementId host mem))) :
    Records allowed (Clock.readId host mem >>= next) :=
  (readId_records hid).bind_of fun _ => hnext

/-- Applying data uses data of that size. -/
theorem applyData_records {size : ℕ} (hdata : allowed (.data size))
    (update : ManagedClock → ManagedClock) :
    Records allowed (applyData size update) :=
  .bind (.use hdata) fun _ => .set_uses fun _ => rfl

theorem getResponse_records (port id : ℕ) (reply : Option Reply) :
    Records allowed (getResponse allocate port id reply) := by
  refine .bind requestMemory_records fun found => .ite (fun _ => ?_) fun _ => .pure _
  refine .bind requestMemory_records fun found => .ite (fun _ => ?_) fun _ => .pure _
  cases reply with
  | none => exact .pure _
  | some reply => exact .bind (answer_records _) fun _ => .pure _

theorem clockManagementGetResponse_records (ingress : MgmtPort) (id : ℕ) :
    Records allowed (clockManagementGetResponse host allocate mem ingress id) :=
  .bind .get fun _ => getResponse_records _ _ _

/-- An error names the identifier. -/
theorem portManagementError_records (hid : allowed .id) (port : ℕ)
    (error : MgmtError) :
    Records allowed (portManagementError host allocate mem port error) := by
  refine .bind requestMemory_records fun found => .ite (fun _ => ?_) fun _ => .pure _
  refine .bind requestMemory_records fun found => .ite (fun _ => ?_) fun _ => .pure _
  exact .readId hid (answer_records _)

theorem clockUpdateSubscription_records :
    Records allowed (clockUpdateSubscription host allocate mem) := by
  refine .get_bind fun handling => ?_
  dsimp only
  generalize requestedSubscriber host mem = subscriber
  cases List.findIdx? (fromRequester host mem) handling.clock.subscribers with
  | some i => exact ⟨[], by simp, (List.append_nil handling.uses).symm⟩
  | none =>
    refine Records.ite (fun _ => .pure _) (fun _ => ?_) handling
    refine .bind requestMemory_records fun found => .ite (fun _ => ?_) fun _ => .pure _
    exact .set_uses fun _ => rfl

/-- A SET for the clock uses the data of its identifier. -/
theorem clockSet_records {id : Option MgmtId}
    (hdata : ∀ known size, id = some known → known.handlerSize = some size →
      allowed (.data size)) :
    Records allowed (clockSet host allocate mem id) := by
  rcases id with _ | id
  · exact .pure _
  cases id with
  | priority1 | priority2 | grandmasterSettingsNp =>
    exact .bind (applyData_records (hdata _ _ rfl rfl) _) fun _ =>
      .bind setChanged_records fun _ => .pure _
  | subscribeEventsNp =>
    exact .bind (.use (hdata _ _ rfl rfl)) fun _ =>
      .bind clockUpdateSubscription_records fun _ => .pure _
  | _ => exact .pure _

theorem clockManagementSet_records {id : ℕ} (ingress : MgmtPort)
    (hdata : ∀ size, (MgmtId.ofCode id).bind MgmtId.handlerSize = some size →
      allowed (.data size)) :
    Records allowed (clockManagementSet host allocate mem ingress id) := by
  refine .bind (clockSet_records fun known size hknown hsize => hdata size ?_)
    fun respond => ?_
  · rw [hknown]
    exact hsize
  refine .ite (fun _ => ?_) fun _ => .pure _
  exact .bind (clockManagementGetResponse_records ingress id) fun _ => .pure _

/-- Settings of a port are used as those of the clock are. -/
theorem portManagementSet_records {id : ℕ} (target : ReportedPort)
    (hdata : ∀ size, (MgmtId.ofCode id).bind MgmtId.handlerSize = some size →
      allowed (.data size)) :
    Records allowed (portManagementSet host allocate mem target id) := by
  refine .bind ?_ fun updated => .ite (fun _ => ?_) fun _ => .pure _
  · rcases hid : MgmtId.ofCode id with _ | known
    · exact .pure _
    cases known with
    | portDataSetNp =>
      exact .bind (applyData_records (hdata _ (by rw [hid]; rfl)) _) fun _ => .pure _
    | _ => exact .pure _
  · exact .bind (getResponse_records _ _ _) fun _ => .pure _

/-! ## Dispatchers -/

/-- Nothing but guarded uses, as long as a SET has a body. -/
def BodyIfSet (host : Host) (mem : Memory) : Prop :=
  managementAction mem = some .set →
    managementLength host mem ≠ 2 ∨ managementId host mem = 0

/-- Data is guarded where the TLV has a body or no identifier. -/
theorem guarded_data (hset : managementLength host mem ≠ 2 ∨
      managementId host mem = 0) {size : ℕ}
    (hsize : (MgmtId.ofCode (managementId host mem)).bind MgmtId.handlerSize =
      some size) :
    Guarded host mem (.data size) := by
  refine ⟨hsize, hset.resolve_right fun hnull => ?_⟩
  rw [hnull] at hsize
  exact absurd hsize (by simp [MgmtId.ofCode, MgmtId.all, MgmtId.code,
    MgmtId.handlerSize])

/-- A port uses only what is guarded. -/
theorem portManageRest_records (target : ReportedPort) :
    Records (Guarded host mem) (portManageRest host allocate mem target) := by
  refine .readId trivial (.ite (fun _ => ?_) fun _ => ?_)
  · exact .bind (portManagementError_records trivial _ _) fun _ => .pure _
  · exact .bind (portManagementError_records trivial _ _) fun _ => .pure _

theorem portManage_records (target : ReportedPort) (hset : BodyIfSet host mem) :
    Records (Guarded host mem) (portManage host allocate mem target) := by
  refine .ite (fun _ => .pure _) fun _ => ?_
  rcases haction : managementAction mem with _ | action
  · exact .pure _
  cases action with
  | get =>
    refine .readId trivial (.bind (getResponse_records _ _ _) fun _ => ?_)
    exact .ite (fun _ => .pure _) fun _ => portManageRest_records target
  | set =>
    have hbody := hset haction
    refine .readId trivial (.bind (portManagementSet_records target fun size hsize =>
      guarded_data hbody hsize) fun _ => ?_)
    exact .ite (fun _ => .pure _) fun _ => portManageRest_records target
  | command => exact portManageRest_records target
  | response | acknowledge => exact .pure _

/-- All ports that are asked use only what is guarded. -/
theorem managePorts_records (hset : BodyIfSet host mem)
    (targets : List ReportedPort) (answers : ℕ) :
    Records (Guarded host mem) (managePorts host allocate mem targets answers) := by
  induction targets generalizing answers with
  | nil => exact .pure _
  | cons target rest ih =>
    refine .bind (portManage_records target hset) fun res => ?_
    exact .ite (fun _ => .pure _) fun _ => ih _

/-- The identifiers that the clock answers for need no data. -/
theorem manageById_records (ingress : MgmtPort) (hset : BodyIfSet host mem) :
    Records (Guarded host mem) (manageById host allocate mem ingress) := by
  refine .readId trivial (.ite (fun _ => ?_) fun _ => ?_)
  · exact .bind (portManagementError_records trivial _ _) fun _ => hasChanged_records
  refine .bind .get fun handling => .bind (managePorts_records hset _ _) fun answers => ?_
  refine .ite (fun _ => ?_) fun _ => hasChanged_records
  exact .bind (portManagementError_records trivial _ _) fun _ => hasChanged_records

theorem manageRest_next_records (ingress : MgmtPort) (hset : BodyIfSet host mem)
    (condition : Prop) [Decidable condition] :
    Records (Guarded host mem) (if condition then do
        portManagementError host allocate mem ingress.number .notSupported
        pure false
      else manageById host allocate mem ingress) := by
  refine .ite (fun _ => ?_) fun _ => manageById_records ingress hset
  exact .bind (portManagementError_records trivial _ _) fun _ => .pure _

/-- Nothing but guarded uses in handling a request. -/
theorem manageRest_records (ingress : MgmtPort) (hset : BodyIfSet host mem) :
    Records (Guarded host mem) (manageRest host allocate mem ingress) :=
  .bind .get fun _ => .readId trivial (manageRest_next_records ingress hset _)

theorem emptySet_records : Records (Guarded host mem) (emptySet host mem) :=
  .ite (fun _ => .readId trivial (.pure _)) fun _ => .pure _

/-- The test for a SET without a body. -/
theorem emptySet_value (handling : Handling) :
    (Handle.after (emptySet host mem) handling).1 =
      decide (managementLength host mem = 2 ∧ managementId host mem ≠ 0) := by
  unfold emptySet
  by_cases hlength : managementLength host mem = 2
  · rw [if_pos hlength]
    simp only [hlength, true_and]
    rfl
  · rw [if_neg hlength]
    simp only [hlength, false_and, decide_false]
    rfl

/-- A SET that passes this test has a body. -/
theorem manageSet_records (ingress : MgmtPort) {empty : Bool}
    (hempty : empty = false →
      managementLength host mem ≠ 2 ∨ managementId host mem = 0) :
    Records (Guarded host mem) (manageSet host allocate mem ingress empty) := by
  refine .bind .get fun handling => .ite (fun _ => ?_) fun hbody => ?_
  · exact .bind (portManagementError_records trivial _ _) fun _ => hasChanged_records
  have hbody := hempty (Bool.eq_false_iff.mpr hbody)
  refine .ite (fun _ => ?_) fun _ => ?_
  · exact .bind (portManagementError_records trivial _ _) fun _ => hasChanged_records
  refine .readId trivial (.bind (clockManagementSet_records ingress fun size hsize =>
    guarded_data hbody hsize) fun _ => ?_)
  exact .ite (fun _ => hasChanged_records) fun _ =>
    manageRest_records ingress fun _ => hbody

/-- The dispatchers record guarded uses only. -/
theorem manageAction_records (ingress : MgmtPort) :
    Records (Guarded host mem) (manageAction host allocate mem ingress) := by
  unfold manageAction
  rcases haction : managementAction mem with _ | action
  · exact hasChanged_records
  cases action with
  | get =>
    refine .readId trivial (.bind (clockManagementGetResponse_records _ _) fun _ => ?_)
    refine .ite (fun _ => hasChanged_records) fun _ => manageRest_records ingress ?_
    exact fun hset => absurd (haction.symm.trans hset) (by decide)
  | set =>
    refine .bind_of emptySet_records fun start => manageSet_records ingress ?_
    rw [emptySet_value]
    simp [imp_iff_not_or]
  | command =>
    refine manageRest_records ingress fun hset => ?_
    exact absurd (haction.symm.trans hset) (by decide)
  | response | acknowledge => exact hasChanged_records

/-! ## Messages that are not looked into -/

/-- A program that reads the identifier has used it. -/
theorem readId_used {β : Type} {next : ℕ → Handle β}
    (hnext : Records (Guarded host mem) (next (managementId host mem)))
    (handling : Handling) :
    .id ∈ (Handle.after (readId host mem >>= next) handling).2.uses := by
  have hused : .id ∈ (Handle.after (readId host mem) handling).2.uses :=
    List.mem_append_right _ (List.mem_singleton_self _)
  exact hnext.mem hused

theorem emptySet_used (hlength : managementLength host mem = 2)
    (handling : Handling) :
    .id ∈ (Handle.after (emptySet host mem) handling).2.uses := by
  unfold emptySet
  rw [if_pos hlength]
  exact @readId_used host mem Bool
    (fun id => pure (decide (id ≠ MgmtId.nullManagement.code))) (.pure _) handling

theorem manageRest_used (ingress : MgmtPort) (hset : BodyIfSet host mem)
    (handling : Handling) :
    .id ∈ (Handle.after (manageRest host allocate mem ingress) handling).2.uses := by
  unfold manageRest
  rw [after_bind, after_get]
  exact readId_used (manageRest_next_records ingress hset _) handling

/-- An error uses the identifier if it can be sent. -/
theorem portManagementError_uses (port : ℕ) (error : MgmtError)
    (handling : Handling) :
    (Handle.after (portManagementError host allocate mem port error) handling).2.uses =
      handling.uses ++
        if (allocate handling.allocations && allocate (handling.allocations + 1)) = true
        then [.id] else [] := by
  unfold portManagementError
  rw [after_bind, requestMemory_after]
  rcases hfirst : allocate handling.allocations with _ | _
  · exact (List.append_nil _).symm
  rw [if_pos rfl, after_bind, requestMemory_after]
  rcases hsecond : allocate (handling.allocations + 1) with _ | _
  · exact (List.append_nil _).symm
  · rfl

/-- When a SET with a body uses the TLV. -/
theorem manageSet_uses_eq_nil_iff (ingress : MgmtPort) (handling : Handling)
    (hfresh : handling.uses = []) (hbody : managementLength host mem ≠ 2) :
    (Handle.after (manageSet host allocate mem ingress false) handling).2.uses = [] ↔
      ¬ingress.number = handling.clock.udsPort.number ∧
        (allocate handling.allocations &&
          allocate (handling.allocations + 1)) = false := by
  unfold manageSet
  rw [after_bind, after_get, if_neg Bool.false_ne_true]
  by_cases hlocal : ingress.number = handling.clock.udsPort.number
  · rw [if_neg (not_not.mpr hlocal)]
    refine iff_of_false (@List.ne_nil_of_mem _ .id _ ?_) fun hremote => hremote.1 hlocal
    refine readId_used ?_ handling
    refine .bind (clockManagementSet_records ingress fun size hsize =>
      guarded_data (Or.inl hbody) hsize) fun _ => ?_
    exact .ite (fun _ => hasChanged_records) fun _ =>
      manageRest_records ingress fun _ => Or.inl hbody
  · rw [if_pos hlocal, after_bind]
    have huses := @portManagementError_uses host allocate mem ingress.number
      .notSupported handling
    rw [hfresh, List.nil_append] at huses
    change (Handle.after (portManagementError host allocate mem ingress.number
      .notSupported) handling).2.uses = [] ↔ _
    rw [huses]
    simp [hlocal]

/-- When the switch over the action uses the TLV. -/
theorem manageAction_uses_eq_nil_iff (ingress : MgmtPort) (handling : Handling)
    (hfresh : handling.uses = []) :
    (Handle.after (manageAction host allocate mem ingress) handling).2.uses = [] ↔
      match managementAction mem with
      | some .get | some .command => False
      | some .set =>
          managementLength host mem ≠ 2 ∧
            ingress.number ≠ handling.clock.udsPort.number ∧
            (allocate handling.allocations &&
              allocate (handling.allocations + 1)) = false
      | _ => True := by
  have hnonempty : ∀ {uses : List MgmtUse}, .id ∈ uses → (uses = [] ↔ False) :=
    fun hused => iff_false_intro (List.ne_nil_of_mem hused)
  unfold manageAction
  rcases haction : managementAction mem with _ | action
  · exact iff_true_intro hfresh
  cases action with
  | get =>
    refine hnonempty (readId_used ?_ handling)
    refine .bind (clockManagementGetResponse_records _ _) fun _ => ?_
    refine .ite (fun _ => hasChanged_records) fun _ => manageRest_records ingress ?_
    exact fun hset => absurd (haction.symm.trans hset) (by decide)
  | set =>
    dsimp only
    rw [after_bind, emptySet_value]
    by_cases hlength : managementLength host mem = 2
    · simp only [hlength, true_and, ne_eq, not_true_eq_false, false_and]
      refine hnonempty ((manageSet_records ingress ?_).mem ?_)
      · exact fun hempty => Or.inr (by simpa using hempty)
      · exact emptySet_used hlength handling
    have hstate : (Handle.after (emptySet host mem) handling).2 = handling := by
      unfold emptySet
      rw [if_neg hlength]
      rfl
    simp only [hlength, false_and, decide_false, hstate, ne_eq, not_false_eq_true,
      true_and]
    exact manageSet_uses_eq_nil_iff ingress handling hfresh hlength
  | command =>
    refine hnonempty (manageRest_used ingress ?_ handling)
    exact fun hset => absurd (haction.symm.trans hset) (by decide)
  | response | acknowledge => exact iff_true_intro hfresh

end

/-- The message is for another clock, has not got exactly one TLV, or asks for
nothing; or it is a SET from elsewhere than the port for local clients and there is no
memory to say so. -/
def Ignored (host : Host) (allocate : ℕ → Bool) (c : ManagedClock)
    (ingress : MgmtPort) (message : Store ParseState) : Prop :=
  isTarget message.mem c = false ∨ message.rest.tlvList.length ≠ 1 ∨
    match managementAction message.mem with
    | some .get | some .command => False
    | some .set =>
        managementLength host message.mem ≠ 2 ∧
          ingress.number ≠ c.udsPort.number ∧
          (allocate 0 && allocate 1) = false
    | _ => True

/-- The TLV is a management TLV, and the body has exactly the length that the handler
of its identifier reads, or is empty and then not applied. -/
def Validated (host : Host) (mem : Memory) : MgmtUse → Prop
  | .id =>
      managementType host mem = TlvType.management.code ∧
        ∀ size, handlerSize host mem = some size →
          managementLength host mem = 2 + size ∨ managementLength host mem = 2
  | .data size =>
      managementType host mem = TlvType.management.code ∧
        handlerSize host mem = some size ∧ managementLength host mem = 2 + size

/-- A management TLV, with a priority or nothing where a priority belongs. -/
def PriorityChecked (host : Host) (mem : Memory) : Prop :=
  managementType host mem = TlvType.management.code ∧
    (managementId host mem ∈ [MgmtId.priority1.code, MgmtId.priority2.code] →
      managementLength host mem ∈ [2, 4])

def UsesValidated (host : Host) (allocate : ℕ → Bool) (c : ManagedClock)
    (ingress : MgmtPort) (parsed : Store ParseState) : Prop :=
  let forwarded := clockForwardMgmtMsg host c.forwarding ingress parsed
  ∀ how ∈ (clockManage host allocate c ingress parsed).2.uses,
    Validated host forwarded.message.mem how

section

variable {host : Host} {allocate : ℕ → Bool} {mem : Memory}

/-- The handlers read the two priorities, or what the parser has validated. -/
theorem handlerSize_cases {size : ℕ} (hsize : handlerSize host mem = some size) :
    size = 2 ∧ managementId host mem ∈
        [MgmtId.priority1.code, MgmtId.priority2.code] ∨
      ∃ id, ManagementId.ofCode (managementId host mem) = some id ∧
        fixedSize id = some size := by
  obtain ⟨id, hid, hread⟩ := Option.bind_eq_some_iff.mp hsize
  have hcode := MgmtId.code_of_ofCode hid
  rw [← hcode]
  cases id with
  | priority1 | priority2 =>
    obtain rfl := Option.some.inj hread
    exact Or.inl ⟨rfl, by decide⟩
  | grandmasterSettingsNp | subscribeEventsNp | portDataSetNp =>
    obtain rfl := Option.some.inj hread
    exact Or.inr ⟨_, rfl, rfl⟩
  | _ => exact absurd hread (by simp [MgmtId.handlerSize])

/-- What the parser checks, and the check that it leaves out, are enough for a guarded
use. -/
theorem Guarded.validated {how : MgmtUse} (hguarded : Guarded host mem how)
    (hhead : HeadChecked host.endian 48 mem) (hpriority : PriorityChecked host mem) :
    Validated host mem how := by
  have hlength : ∀ size, handlerSize host mem = some size →
      managementLength host mem = 2 + size ∨ managementLength host mem = 2 := by
    intro size hsize
    rcases handlerSize_cases hsize with ⟨rfl, hid⟩ | ⟨id, hid, hfixed⟩
    · simpa [or_comm] using hpriority.2 hid
    · exact ((hhead hpriority.1).2 id size hid hfixed).symm
  cases how with
  | id => exact ⟨hpriority.1, hlength⟩
  | data size =>
    obtain ⟨hsize, hbody⟩ := hguarded
    exact ⟨hpriority.1, hsize, (hlength size hsize).resolve_right hbody⟩

/-- Where a use is validated, the length of a priority has been checked. -/
theorem Validated.priorityChecked {how : MgmtUse} (hvalidated : Validated host mem how) :
    PriorityChecked host mem := by
  have hsize : managementId host mem ∈
      [MgmtId.priority1.code, MgmtId.priority2.code] →
        handlerSize host mem = some 2 := by
    intro hid
    unfold handlerSize
    rcases List.mem_pair.mp hid with hid | hid
    · rw [hid]
      rfl
    · rw [hid]
      rfl
  cases how with
  | id =>
    refine ⟨hvalidated.1, fun hid => ?_⟩
    simpa [or_comm] using hvalidated.2 2 (hsize hid)
  | data size =>
    obtain ⟨htype, hread, hlength⟩ := hvalidated
    refine ⟨htype, fun hid => ?_⟩
    obtain rfl := Option.some.inj ((hsize hid).symm.trans hread)
    simp [hlength]

/-! ## Accepted messages -/

/-- A management message that is parsed has been accepted. -/
theorem accepted_of_ok {cnt : ℕ} {received : Store ParseState}
    (hok : (ptpMsgReceive host cnt received).1 = .ok ())
    (htype : typeOf received.mem = some .management)
    (hfresh : received.rest.tlvList = []) :
    Accepted host cnt received (ptpMsgReceive host cnt received).2 :=
  ⟨Prod.ext hok rfl, htype, hfresh⟩

theorem firstChecked_setBoundaryHops {message : Store ParseState}
    (hfirst : FirstChecked host.endian 48 message) (hops : UInt8) :
    FirstChecked host.endian 48 (setBoundaryHops message hops) := by
  refine hfirst.imp id fun ⟨first, rest, hlist, htlv, hchecked⟩ =>
    ⟨first, rest, hlist, htlv, hchecked.congr fun i hi _ => ?_⟩
  exact (storeHops_of_ne message.mem hops (by omega)).symm

/-- Also after forwarding, what has been checked of the TLV still holds. -/
theorem Accepted.firstChecked {cnt : ℕ} {received parsed : Store ParseState}
    (haccepted : Accepted host cnt received parsed) (c : MgmtClock) (p : MgmtPort) :
    FirstChecked host.endian 48 (clockForwardMgmtMsg host c p parsed).message := by
  have hparsed : FirstChecked host.endian 48 parsed := by
    have hfirst := ptpMsgReceive_firstChecked host haccepted.management
      haccepted.fresh cnt
    rwa [haccepted.run] at hfirst
  rw [haccepted.clockForwardMgmtMsg_eq c p]
  by_cases hgate : Gate c p received.mem
  swap
  · rw [if_neg hgate]
    exact hparsed
  rw [if_pos hgate]
  dsimp only
  by_cases hnone : recipients c p received.mem = []
  · rw [if_pos hnone, hnone]
    exact firstChecked_setBoundaryHops hparsed _
  rw [if_neg hnone]
  refine firstChecked_setBoundaryHops ?_ _
  obtain ⟨mem, spans, hsend, hagree⟩ :=
    haccepted.msgPreSend_eq (boundaryHops received.mem - 1)
  have hsent : (served host (setBoundaryHops parsed (boundaryHops received.mem - 1))
      (recipients c p received.mem)).message = ⟨mem, spans, parsed.rest.detach⟩ := by
    rw [served, if_neg hnone, hsend]
  rw [hsent]
  refine ptpMsgReceive_firstChecked host ?_ rfl _
  have hsize := haccepted.size_le
  have hbyte : mem 0 = received.mem 0 := by
    rw [hagree 0 le_rfl (by omega), resentDatagram, if_pos (by decide)]
    exact storeHops_of_ne received.mem _ (by decide)
  have hmanagement := haccepted.management
  rw [typeOf, ← hbyte] at hmanagement
  exact hmanagement

/-- Every use is of validated data exactly when the message is ignored, or its TLV is a
management TLV whose body, if it is for a priority, has two octets or none. -/
theorem usesValidated_iff (allocate : ℕ → Bool) (c : ManagedClock)
    (ingress : MgmtPort) {cnt : ℕ} {received parsed : Store ParseState}
    (haccepted : Accepted host cnt received parsed) :
    UsesValidated host allocate c ingress parsed ↔
      let message := (clockForwardMgmtMsg host c.forwarding ingress parsed).message
      Ignored host allocate c ingress message ∨ PriorityChecked host message.mem := by
  have hfirst := haccepted.firstChecked c.forwarding ingress
  unfold UsesValidated clockManage
  dsimp only
  generalize (clockForwardMgmtMsg host c.forwarding ingress parsed).message = message
    at hfirst ⊢
  change (∀ how ∈ (Handle.after (clockDispatch host allocate ingress message)
    { clock := c }).2.uses, Validated host message.mem how) ↔ _
  unfold clockDispatch
  rw [after_bind, after_get]
  dsimp only
  by_cases htarget : isTarget message.mem c = false
  · rw [if_pos htarget]
    exact iff_of_true (by simp [hasChanged_uses]) (Or.inl (Or.inl htarget))
  rw [if_neg htarget]
  by_cases hcount : message.rest.tlvList.length ≠ 1
  · rw [if_pos hcount]
    exact iff_of_true (by simp [hasChanged_uses]) (Or.inl (Or.inr (Or.inl hcount)))
  rw [if_neg hcount]
  have hnil := @manageAction_uses_eq_nil_iff host allocate message.mem ingress
    { clock := c } rfl
  have hignored : Ignored host allocate c ingress message ↔
      (Handle.after (manageAction host allocate message.mem ingress)
        { clock := c }).2.uses = [] := by
    rw [hnil, Ignored, or_iff_right htarget, or_iff_right hcount]
  obtain ⟨first, rest, hlist, htlv, hhead⟩ := hfirst.resolve_left fun hempty => by
    rw [hempty] at hcount
    exact hcount (by decide)
  obtain ⟨uses, hguarded, huses⟩ :=
    @manageAction_records host allocate message.mem ingress { clock := c }
  rw [List.nil_append] at huses
  rw [hignored, huses]
  constructor
  · intro hvalidated
    rcases uses with _ | ⟨how, uses⟩
    · exact Or.inl rfl
    · exact Or.inr (hvalidated how (List.mem_cons_self ..)).priorityChecked
  · rintro (hempty | hpriority) how hhow
    · rw [hempty] at hhow
      exact absurd hhow (List.not_mem_nil)
    · exact (hguarded how hhow).validated hhead hpriority

end

/-! ## A request in an alternate time offset -/

/-- A SET for every clock, with a TLV of the given type, identifier and data. -/
def setRequest (type id data : List UInt8) : List UInt8 :=
  [0x0d, 0x02, 0, 62, 0, 0, 0, 0, 0, 0, 0, 0, 0, 0, 0, 0, 0, 0, 0, 0,
    0, 0x1b, 0x19, 0xff, 0xfe, 0, 0, 1, 0, 1, 0, 7, 4, 0x7f,
    0xff, 0xff, 0xff, 0xff, 0xff, 0xff, 0xff, 0xff, 0xff, 0xff, 0, 0, 1, 0] ++
    type ++ [0, 10] ++ id ++ data

def localClock : ManagedClock where
  reported := reportedClock
  subscribers := []
  clkPorts := []
  udsPort := ⟨0, .listening⟩

/-- `TLV_ALTERNATE_TIME_OFFSET_INDICATOR`, with bytes that look like the grandmaster
settings on a machine with the least significant byte first. -/
def disguisedRequest : List UInt8 :=
  setRequest [0, 9] [0x01, 0xc0] [6, 0x21, 0, 0, 99, 0, 0x3c, 0x20]

def disguisedReceived : Store ParseState :=
  receivedStore disguisedRequest (fun _ => 0) ⟨0, 0⟩

def disguisedParsed : Store ParseState :=
  (ptpMsgReceive lonelyHost disguisedRequest.length disguisedReceived).2

/-- The settings of the grandmaster are taken from a TLV of another type. -/
theorem disguisedRequest_not_usesValidated :
    Accepted lonelyHost disguisedRequest.length disguisedReceived disguisedParsed ∧
      (clockManage lonelyHost (fun _ => true) localClock ⟨0, .listening⟩
        disguisedParsed).2.clock.reported.utcOffset = 99 ∧
      ¬UsesValidated lonelyHost (fun _ => true) localClock ⟨0, .listening⟩
        disguisedParsed := by
  refine ⟨accepted_of_ok (by decide +kernel) (by decide) rfl, by decide +kernel,
    fun hvalidated => ?_⟩
  have hused : MgmtUse.id ∈ (clockManage lonelyHost (fun _ => true) localClock
      ⟨0, .listening⟩ disguisedParsed).2.uses := by decide +kernel
  exact absurd (hvalidated .id hused).1 (by decide +kernel)

def settingsRequest : List UInt8 :=
  setRequest [0, 1] [0xc0, 0x01] [6, 0x21, 0, 0, 0, 99, 0x3c, 0x20]

def settingsReceived : Store ParseState :=
  receivedStore settingsRequest (fun _ => 0) ⟨0, 0⟩

def settingsParsed : Store ParseState :=
  (ptpMsgReceive lonelyHost settingsRequest.length settingsReceived).2

theorem usesValidated_iff_settingsRequest :
    UsesValidated lonelyHost (fun _ => true) localClock ⟨0, .listening⟩
      settingsParsed := by
  have haccepted : Accepted lonelyHost settingsRequest.length settingsReceived
      settingsParsed := accepted_of_ok (by decide +kernel) (by decide) rfl
  refine (usesValidated_iff (fun _ => true) localClock ⟨0, .listening⟩ haccepted).mpr
    (Or.inr ⟨by decide +kernel, fun hpriority => ?_⟩)
  exact absurd hpriority (by decide +kernel)

end LinuxPtp.Clock
