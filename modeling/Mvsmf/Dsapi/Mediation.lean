import Mvsmf.Dsapi.Handlers
import Mvsmf.Lib.Monitor

/-!
# The authorization of the data set operations

Every handler asks before it looks: a data set is located, read or changed only behind a check that
permitted it for that data set, and behind a refusal there is no call at all. On the route of a volume
it has been found on that volume, too. So a refused request does and says the same whatever the data
sets of the system are.
-/

namespace Mvsmf

/-- The checks of a level permit what a lower one asks for. -/
def RacfAttr.level : RacfAttr → Nat
  | .READ => 0
  | .UPDATE => 1
  | .ALTER => 2

section

variable (volser : Option (List Char)) (h : List DsEvent)

/-- A check for the data set was permitted. -/
def Permitted (dsname : List Char) (attr : RacfAttr) : Prop :=
  ∃ asked : RacfAttr, attr.level ≤ asked.level ∧ ⟨.checkAuth dsname asked, (0 : Int)⟩ ∈ h

/-- Nothing was refused. -/
def Unrefused : Prop :=
  ∀ dsname attr (rc : Int), (⟨.checkAuth dsname attr, rc⟩ : DsEvent) ∈ h → rc = 0

/-- The catalog has the data set on the volume the request names, if it names one. -/
def Located (dsname : List Char) : Prop :=
  ∀ requested, volser = some requested →
    ∃ vol, ⟨.locate (dsn44 dsname), some vol⟩ ∈ h ∧ NamesVolume requested vol

/-- What an operation on a data set has behind it. -/
structure Ready (dsname : List Char) (attr : RacfAttr) : Prop where
  granted : Permitted h dsname attr
  located : Located volser h dsname

/-- A data set, or a member of it, as `fopen` takes it. -/
def NameOf (dsname name : List Char) : Prop :=
  name = dsname ∨ ∃ member, name = DsProg.qualified dsname member

/-- What has to be behind a call. -/
def DsCall.Covered : DsCall → Prop
  | .checkAuth _ _ => ∀ e ∈ h, e.1 = .readRequestContent ∨ ∃ n a, e.1 = .checkAuth n a
  | .readRequestContent => h = []
  | .locate dsn => ∃ dsname, dsn = dsn44 dsname ∧ Permitted h dsname .READ
  | .dscbdv dsn _ => ∃ dsname, dsn = dsn44 dsname ∧ Ready volser h dsname .READ
  | .dscbv vol => ∃ dsn d, ⟨.dscbdv dsn vol, some d⟩ ∈ h
  | .listpd dsname _ => Ready volser h dsname .READ
  | .fopenRead name => ∃ dsname, NameOf dsname name ∧ Ready volser h dsname .READ
  | .fopenDirectory name => Ready volser h name .READ
  | .fopenWrite name => ∃ dsname, NameOf dsname name ∧ Ready volser h dsname .UPDATE
  | .storeBody spec => ∃ dsname, NameOf dsname spec.name ∧ Ready volser h dsname .UPDATE
  | .remove name =>
    Ready volser h name .ALTER ∨
      ∃ dsname member, name = DsProg.qualified dsname member ∧ Ready volser h dsname .UPDATE
  | .renmem dsname _ _ => Ready volser h dsname .UPDATE
  | .rename oldName newName => Ready volser h oldName .ALTER ∧ Permitted h newName .ALTER

/-- A name that a request may have authorized: the folded one of its path, or the old one of the
rename it brings. -/
def Named (req : DsRequest) (dsname : List Char) : Prop :=
  (∃ name, req.datasetName = some name ∧ DsProg.foldDsn name = some dsname) ∨
    ∃ body, ⟨.readRequestContent, .ok body⟩ ∈ h ∧ processRename false body = .ok dsname

/-- The calls of an operation, by what was answered before. -/
structure DsCall.Allowed (req : DsRequest) (h : List DsEvent) (c : DsCall) : Prop where
  unrefused : Unrefused h
  covered : c.Covered req.volumeSerial h
  named : ∀ dsname attr, c = .checkAuth dsname attr → Named h req dsname

/-- The answer to a request that was refused is that of the refusal. -/
def RefusalSent (reply : DsReply) : Prop :=
  ∀ dsname attr (rc : Int), (⟨.checkAuth dsname attr, rc⟩ : DsEvent) ∈ h → rc ≠ 0 →
    ∃ a, DsProg.refusal rc = some a ∧ reply = .report a

end

/-! ## What more answers keep -/

section

variable {volser : Option (List Char)} {h : List DsEvent} {dsname : List Char} {attr : RacfAttr}

theorem Permitted.mono {attr' : RacfAttr} (hg : Permitted h dsname attr)
    (hle : attr'.level ≤ attr.level) : Permitted h dsname attr' := by
  obtain ⟨asked, hasked, hmem⟩ := hg
  exact ⟨asked, hle.trans hasked, hmem⟩

theorem Permitted.read (hg : Permitted h dsname attr) : Permitted h dsname .READ :=
  hg.mono (Nat.zero_le _)

theorem Permitted.snoc (hg : Permitted h dsname attr) (e : DsEvent) :
    Permitted (h ++ [e]) dsname attr := by
  obtain ⟨asked, hasked, hmem⟩ := hg
  exact ⟨asked, hasked, List.mem_append_left _ hmem⟩

theorem Located.snoc (hl : Located volser h dsname) (e : DsEvent) :
    Located volser (h ++ [e]) dsname := by
  intro requested hreq
  obtain ⟨vol, hmem, hnames⟩ := hl requested hreq
  exact ⟨vol, List.mem_append_left _ hmem, hnames⟩

theorem Ready.read (hr : Ready volser h dsname attr) : Ready volser h dsname .READ :=
  ⟨hr.granted.read, hr.located⟩

theorem Ready.snoc (hr : Ready volser h dsname attr) (e : DsEvent) :
    Ready volser (h ++ [e]) dsname attr := ⟨hr.granted.snoc e, hr.located.snoc e⟩

theorem unrefused_snoc {e : DsEvent} (hu : Unrefused h)
    (he : ∀ dsname attr (rc : Int), e = ⟨.checkAuth dsname attr, rc⟩ → rc = 0) :
    Unrefused (h ++ [e]) := by
  intro dsname attr rc hmem
  rcases List.mem_append.mp hmem with hmem | hmem
  · exact hu dsname attr rc hmem
  · exact he dsname attr rc (List.mem_singleton.mp hmem).symm

theorem Unrefused.sent (hu : Unrefused h) (reply : DsReply) : RefusalSent h reply :=
  fun dsname attr rc hmem hrc => absurd (hu dsname attr rc hmem) hrc

theorem refusal_none {rc : Int} : DsProg.refusal rc = none ↔ rc = 0 := by
  unfold DsProg.refusal
  split
  · next heq => exact iff_of_true rfl heq
  · next hne => exact iff_of_false (by split <;> exact nofun) hne

end

namespace DsProg

open Prog Monitor

/-- The monitor of an operation; its state is what was answered so far. -/
def mediator (req : DsRequest) : Monitor DsCall DsCall.Ans (List DsEvent) :=
  history (DsCall.Allowed req)

variable {req : DsRequest} {h : List DsEvent} {dsname : List Char} {attr : RacfAttr} {ρ : Type}

/-! ## Behind the gates -/

/-- Nothing was refused, and the operation on the data set may go on. -/
def Open (req : DsRequest) (dsname : List Char) (attr : RacfAttr) (h : List DsEvent) : Prop :=
  Unrefused h ∧ Ready req.volumeSerial h dsname attr

/-- The call is no check. -/
def Plain (c : DsCall) : Prop := ∀ dsname attr, c ≠ .checkAuth dsname attr

/-- Behind the gates, a call that they cover. -/
theorem keeps_service {c : DsCall} (hplain : Plain c)
    (hcovered : ∀ h, Open req dsname attr h → c.Covered req.volumeSerial h) :
    (mediator req).Keeps (Open req dsname attr) (service c) := by
  apply Keeps.ask
  intro h hopen
  refine ⟨⟨hopen.1, hcovered h hopen, fun n a hc => absurd hc (hplain n a)⟩, fun ans => ?_⟩
  refine ⟨unrefused_snoc hopen.1 fun n a rc heq => ?_, hopen.2.snoc _⟩
  exact absurd (congrArg Sigma.fst heq) (hplain n a)

theorem keeps_locate :
    (mediator req).Keeps (Open req dsname attr) (service (.locate (dsn44 dsname))) :=
  keeps_service nofun fun _ hopen => ⟨dsname, rfl, hopen.2.granted.read⟩

theorem keeps_dscbdv (vol : Volser) :
    (mediator req).Keeps (Open req dsname attr) (service (.dscbdv (dsn44 dsname) vol)) :=
  keeps_service nofun fun _ hopen => ⟨dsname, rfl, hopen.2.read⟩

theorem keeps_fopenRead {name : List Char} (hname : NameOf dsname name) :
    (mediator req).Keeps (Open req dsname attr) (service (.fopenRead name)) :=
  keeps_service nofun fun _ hopen => ⟨dsname, hname, hopen.2.read⟩

theorem keeps_datasetCataloged :
    (mediator req).Keeps (Open req dsname attr) (datasetCataloged dsname) :=
  keeps_locate.bind fun _ => .ret _

theorem keeps_isPds : (mediator req).Keeps (Open req dsname attr) (isPds dsname) := by
  apply keeps_locate.bind
  intro located
  cases located with
  | none => exact .ret _
  | some vol =>
    apply (keeps_dscbdv vol).bind
    intro d
    cases d with
    | none => exact .ret _
    | some d => exact .ret _

/-- The format-4 DSCB is that of the volume the data set was found on. -/
theorem keeps_getFbRecordCount :
    (mediator req).Keeps (Open req dsname attr) (getFbRecordCount dsname) := by
  apply keeps_locate.bind
  intro located
  cases located with
  | none => exact .ret _
  | some vol =>
    intro h hopen
    refine obeys_ask_bind.mpr ⟨(keeps_dscbdv vol h hopen).1, fun d => ?_⟩
    have hnext := (keeps_dscbdv vol h hopen).2 d
    cases d with
    | none => exact hnext
    | some d =>
      dsimp only
      split
      · exact hnext
      · have hallow : DsCall.Allowed req (h ++ [⟨.dscbdv (dsn44 dsname) vol, some d⟩])
            (.dscbv vol) :=
          ⟨hnext.1, ⟨_, d, List.mem_append_right _ (List.mem_singleton.mpr rfl)⟩, nofun⟩
        refine (obeys_ask_bind (m := mediator req)).mpr ⟨hallow, fun g => ?_⟩
        exact ⟨unrefused_snoc hnext.1 nofun, hnext.2.snoc _⟩

theorem keeps_recordCap (dataType : DataType) :
    (mediator req).Keeps (Open req dsname attr) (recordCap dsname dataType) := by
  apply Keeps.ite
  · exact .ret _
  · exact keeps_getFbRecordCount

theorem keeps_diagnoseOpenFailure (member : Option (List Char)) :
    (mediator req).Keeps (Open req dsname attr) (diagnoseOpenFailure dsname member) := by
  apply keeps_datasetCataloged.bind
  intro cataloged
  apply Keeps.ite
  · exact .ret _
  · cases member with
    | none => exact .ret _
    | some member =>
      apply keeps_isPds.bind
      intro pds
      apply Keeps.ite
      · exact .ret _
      · apply Keeps.bind
        · exact keeps_service nofun fun _ hopen => hopen.2.read
        · rintro ⟨list, err⟩
          dsimp only
          cases listOutcome list err
          all_goals exact .ret _

theorem keeps_sendOpenFailure (member : Option (List Char)) (ioMessage : String) :
    (mediator req).Keeps (Open req dsname attr) (sendOpenFailure dsname member ioMessage) :=
  (keeps_diagnoseOpenFailure member).bind fun _ => .ret _

theorem keeps_requirePds : (mediator req).Keeps (Open req dsname attr) (requirePds dsname) := by
  apply keeps_datasetCataloged.bind
  intro cataloged
  apply Keeps.ite
  · exact .ret _
  · apply keeps_isPds.bind
    intro pds
    apply Keeps.ite
    · exact .ret _
    · exact .ret _

section

variable {name : List Char} {calloc : Nat → Bool} {maxRecords : Int}

theorem keeps_datasetEtag (hname : NameOf dsname name) :
    (mediator req).Keeps (Open req dsname attr) (datasetEtag calloc name maxRecords) :=
  (keeps_fopenRead hname).bind fun _ => .ret _

theorem keeps_checkIfMatch {ifMatch : Option (List Char)} (hname : NameOf dsname name) :
    (mediator req).Keeps (Open req dsname attr) (checkIfMatch calloc ifMatch name maxRecords) := by
  cases ifMatch with
  | none => exact .ret _
  | some header => exact (keeps_datasetEtag hname).bind fun _ => .ret _

variable {count : DsProg Int}

theorem keeps_validator (hname : NameOf dsname name)
    (hcount : (mediator req).Keeps (Open req dsname attr) count) :
    (mediator req).Keeps (Open req dsname attr) (validator req name count) := by
  apply Keeps.ite
  · exact .ret _
  · apply hcount.bind
    intro maxRecords
    apply (keeps_datasetEtag hname).bind
    intro etag
    cases etag with
    | none => exact .ret _
    | some etag =>
      dsimp only
      cases req.ifNoneMatch
      all_goals exact .ret _

theorem keeps_returnedEtag (hname : NameOf dsname name)
    (hcount : (mediator req).Keeps (Open req dsname attr) count) :
    (mediator req).Keeps (Open req dsname attr) (returnedEtag req name count) := by
  apply Keeps.ite
  · exact hcount.bind fun _ => keeps_datasetEtag hname
  · exact .ret _

/-- A body is stored where updates are permitted. -/
theorem keeps_storeTarget {spec : PutSpec} {openFailed : DsProg Answer}
    (hname : NameOf dsname spec.name)
    (hfailed : (mediator req).Keeps (Open req dsname .UPDATE) openFailed)
    (hcount : (mediator req).Keeps (Open req dsname .UPDATE) count) :
    (mediator req).Keeps (Open req dsname .UPDATE) (storeTarget req spec openFailed count) := by
  apply Keeps.ite
  · exact .ret _
  · apply Keeps.ite
    · exact .ret _
    · apply Keeps.bind
      · exact keeps_service nofun fun _ hopen => ⟨dsname, hname, hopen.2⟩
      · intro ended
        cases ended with
        | openFailed => exact hfailed.bind fun _ => .ret _
        | answered a =>
          apply Keeps.ite
          · exact (keeps_returnedEtag hname hcount).bind fun _ => .ret _
          · exact .ret _

theorem keeps_memberTarget {dataset : List Char} (hname : NameOf dsname dataset) :
    (mediator req).Keeps (Open req dsname .UPDATE) (memberTarget dsname dataset) := by
  apply (keeps_fopenRead hname).bind
  intro chk
  cases chk with
  | some chk => exact .ret _
  | none =>
    apply Keeps.bind
    · exact keeps_service nofun fun _ hopen => ⟨dsname, hname, hopen.2⟩
    · intro fp
      cases fp with
      | some dcb => exact .ret _
      | none => exact (keeps_sendOpenFailure none _).bind fun _ => .ret _

end

/-! ## The gates -/

/-- Checks that were permitted, and no call of another kind but for the body. -/
def Checking (h : List DsEvent) : Prop :=
  Unrefused h ∧ ∀ e ∈ h, e.1 = .readRequestContent ∨ ∃ n a, e.1 = .checkAuth n a

theorem checking_nil : Checking [] := by
  refine ⟨fun n a rc hmem => ?_, fun e hmem => ?_⟩
  · exact absurd hmem List.not_mem_nil
  · exact absurd hmem List.not_mem_nil

theorem Checking.body (hc : Checking h) (body : Except BodyRc (List Char)) :
    Checking (h ++ [⟨.readRequestContent, body⟩]) := by
  refine ⟨unrefused_snoc hc.1 nofun, fun e hmem => ?_⟩
  rcases List.mem_append.mp hmem with hmem | hmem
  · exact hc.2 e hmem
  · exact .inl (congrArg Sigma.fst (List.mem_singleton.mp hmem))

theorem Checking.permitted (hc : Checking h) :
    Checking (h ++ [⟨.checkAuth dsname attr, (0 : Int)⟩]) := by
  refine ⟨unrefused_snoc hc.1 ?_, fun e hmem => ?_⟩
  · rintro n a rc ⟨⟩
    rfl
  · rcases List.mem_append.mp hmem with hmem | hmem
    · exact hc.2 e hmem
    · exact .inr ⟨dsname, attr, congrArg Sigma.fst (List.mem_singleton.mp hmem)⟩

theorem granted_permitted : Permitted (h ++ [⟨.checkAuth dsname attr, (0 : Int)⟩]) dsname attr :=
  ⟨attr, le_rfl, List.mem_append_right _ (List.mem_singleton.mpr rfl)⟩

/-- The answer of the last check is the only refusal there is. -/
theorem refusalSent_snoc {rc : Int} {a : Answer} (hu : Unrefused h)
    (ha : refusal rc = some a) :
    RefusalSent (h ++ [⟨.checkAuth dsname attr, rc⟩]) (.report a) := by
  intro n asked rc' hmem hrc'
  rcases List.mem_append.mp hmem with hmem | hmem
  · exact absurd (hu n asked rc' hmem) hrc'
  · cases List.mem_singleton.mp hmem
    exact ⟨a, ha, rfl⟩

theorem obeys_requireAccess {Q : List DsEvent → Option Answer → Prop} (hc : Checking h)
    (hnamed : Named h req dsname)
    (hrefused : ∀ rc a, refusal rc = some a → Q (h ++ [⟨.checkAuth dsname attr, rc⟩]) (some a))
    (hpermitted : Q (h ++ [⟨.checkAuth dsname attr, (0 : Int)⟩]) none) :
    (mediator req).Obeys h (requireAccess dsname attr) Q := by
  have hallow : DsCall.Allowed req h (.checkAuth dsname attr) := by
    refine ⟨hc.1, hc.2, ?_⟩
    rintro _ _ ⟨⟩
    exact hnamed
  refine (obeys_ask_bind (m := mediator req)).mpr ⟨hallow, fun rc => ?_⟩
  apply obeys_ret.mpr
  cases hrc : refusal rc with
  | none =>
    cases refusal_none.mp hrc
    exact hpermitted
  | some a => exact hrefused rc a hrc

theorem obeys_volumeGate {volser : Option (List Char)} (hvol : req.volumeSerial = volser)
    (hu : Unrefused h) (hg : Permitted h dsname attr) :
    (mediator req).Obeys h (volumeGate volser dsname) fun h' r =>
      Unrefused h' ∧ (∀ e ∈ h, e ∈ h') ∧ (r = none → Located volser h' dsname) := by
  cases volser with
  | none => exact ⟨hu, fun _ hmem => hmem, fun _ => nofun⟩
  | some requested =>
    have hallow : DsCall.Allowed req h (.locate (dsn44 dsname)) :=
      ⟨hu, ⟨dsname, rfl, hg.read⟩, nofun⟩
    refine (obeys_ask_bind (m := mediator req)).mpr ⟨hallow, fun located => ?_⟩
    have hnext : ∀ r : Option Answer, (r = none → volserVerdict requested located = .onVolume) →
        (mediator req).Obeys (h ++ [⟨.locate (dsn44 dsname), located⟩]) (pure r) fun h' r =>
          Unrefused h' ∧ (∀ e ∈ h, e ∈ h') ∧ (r = none → Located (some requested) h' dsname) := by
      intro r hr
      refine ⟨unrefused_snoc hu nofun, fun _ => List.mem_append_left _, fun hnone => ?_⟩
      rintro _ ⟨⟩
      obtain ⟨vol, rfl, hnames⟩ := volserVerdict_onVolume.mp (hr hnone)
      exact ⟨vol, List.mem_append_right _ (List.mem_singleton.mpr rfl), hnames⟩
    cases hverdict : volserVerdict requested located with
    | onVolume => exact hnext none fun _ => hverdict
    | bad => exact hnext _ nofun
    | otherVolume => exact hnext _ nofun
    | notCataloged => exact hnext _ nofun

/-- An answer of the gates is of the refusal, if there was one; without an answer the operation is
open. -/
def GatesEnd (req : DsRequest) (dsname : List Char) (attr : RacfAttr) (h : List DsEvent) :
    Option Answer → Prop
  | some a => RefusalSent h (.report a)
  | none => Open req dsname attr h

theorem obeys_gates (hc : Checking h) (hnamed : Named h req dsname) :
    (mediator req).Obeys h (gates req.volumeSerial dsname attr) (GatesEnd req dsname attr) := by
  apply obeys_bind.mpr
  apply obeys_requireAccess hc hnamed
  · intro rc a ha
    exact refusalSent_snoc hc.1 ha
  · apply (obeys_volumeGate rfl hc.permitted.1 granted_permitted).imp
    rintro h' r ⟨hu, hsub, hlocated⟩
    cases r with
    | some a => exact hu.sent _
    | none =>
      have hgranted : Permitted h' dsname attr :=
        ⟨attr, le_rfl, hsub _ (List.mem_append_right _ (List.mem_singleton.mpr rfl))⟩
      exact ⟨hu, hgranted, hlocated rfl⟩

/-- What goes on behind the gates keeps them. -/
theorem obeys_gated {f : Option Answer → DsProg DsReply} (hc : Checking h)
    (hnamed : Named h req dsname) (hsome : ∀ a, f (some a) = pure (.report a))
    (hnone : (mediator req).Keeps (Open req dsname attr) (f none)) :
    (mediator req).Obeys h (gates req.volumeSerial dsname attr >>= f) RefusalSent := by
  apply obeys_bind.mpr
  apply (obeys_gates hc hnamed).imp
  intro h' r hend
  cases r with
  | some a =>
    rw [hsome]
    exact hend
  | none => exact (hnone h' hend).imp fun h'' reply hopen => hopen.1.sent reply

/-! ## The handlers -/

theorem named_path {name : List Char} (hname : req.datasetName = some name)
    (hfold : foldDsn name = some dsname) : Named h req dsname := .inl ⟨name, hname, hfold⟩

/-- Without a call there is nothing to obey. -/
theorem obeys_report (hc : Checking h) (a : Answer) :
    (mediator req).Obeys h (pure (.report a)) RefusalSent := hc.1.sent _

theorem obeys_datasetGetHandler (hc : Checking h) :
    (mediator req).Obeys h (datasetGetHandler req) RefusalSent := by
  unfold datasetGetHandler
  cases hname : req.datasetName with
  | none => exact obeys_report hc _
  | some name =>
    dsimp only
    cases hfold : foldDsn name with
    | none => exact obeys_report hc _
    | some dsname =>
      apply obeys_gated hc (named_path hname hfold) fun _ => rfl
      apply keeps_isPds.bind
      intro pds
      apply Keeps.ite
      · exact .ret _
      · cases parseDataType req.dataType with
        | none => exact .ret _
        | some parsed =>
          obtain ⟨dataType, enc⟩ := parsed
          apply (keeps_validator (.inl rfl) keeps_getFbRecordCount).bind
          intro stamp
          cases stamp with
          | error etag => exact .ret _
          | ok etag =>
            apply (keeps_recordCap dataType).bind
            intro maxRecords
            apply (keeps_fopenRead (.inl rfl)).bind
            intro fp
            cases fp with
            | none => exact (keeps_sendOpenFailure none _).bind fun _ => .ret _
            | some fp => exact .ret _

theorem obeys_memberGetHandler (hc : Checking h) :
    (mediator req).Obeys h (memberGetHandler req) RefusalSent := by
  unfold memberGetHandler
  split
  · next name member hname hmember =>
    cases hfold : foldDsn name with
    | none => exact obeys_report hc _
    | some dsname =>
      cases foldMember member with
      | none => exact obeys_report hc _
      | some member =>
        have hdataset : NameOf dsname (qualified dsname member) := .inr ⟨member, rfl⟩
        apply obeys_gated hc (named_path hname hfold) fun _ => rfl
        cases parseDataType req.dataType with
        | none => exact .ret _
        | some parsed =>
          obtain ⟨dataType, enc⟩ := parsed
          apply (keeps_validator hdataset (.ret _)).bind
          intro stamp
          cases stamp with
          | error etag => exact .ret _
          | ok etag =>
            apply (keeps_fopenRead hdataset).bind
            intro fp
            cases fp with
            | none => exact (keeps_sendOpenFailure _ _).bind fun _ => .ret _
            | some fp => exact .ret _
  · exact obeys_report hc _

theorem obeys_memberListHandler (hc : Checking h) :
    (mediator req).Obeys h (memberListHandler req) RefusalSent := by
  unfold memberListHandler
  cases hname : req.datasetName with
  | none => exact obeys_report hc _
  | some name =>
    dsimp only
    cases hfold : foldDsn name with
    | none => exact obeys_report hc _
    | some dsname =>
      apply obeys_gated hc (named_path hname hfold) fun _ => rfl
      apply Keeps.ite
      · exact .ret _
      · apply keeps_requirePds.bind
        intro pds
        cases pds with
        | some a => exact .ret _
        | none =>
          apply Keeps.bind
          · exact keeps_service nofun fun _ hopen => hopen.2
          · intro fp
            cases fp with
            | none => exact .ret _
            | some fp => exact .ret _

theorem obeys_renameMember {fromMember newMember : List Char} (hc : Checking h)
    (hnamed : Named h req dsname) :
    (mediator req).Obeys h (renameMember req dsname fromMember newMember) RefusalSent := by
  apply obeys_gated hc hnamed fun _ => rfl
  apply Keeps.bind
  · exact keeps_service nofun fun _ hopen => hopen.2
  · exact fun rc => .ret _

/-- What a rename has behind its gates. -/
def RenameOpen (req : DsRequest) (fromDsn newDsn : List Char) (h : List DsEvent) : Prop :=
  Open req fromDsn .ALTER h ∧ Permitted h newDsn .ALTER

/-- The new name is authorized before the volume of the old one is compared. -/
theorem obeys_renameGates {fromDsn newDsn : List Char} (hc : Checking h)
    (hold : Permitted h fromDsn .ALTER) (hnew : Named h req newDsn) :
    (mediator req).Obeys h (renameGates req fromDsn newDsn) fun h' r =>
      (∀ a, r = some a → RefusalSent h' (.report a)) ∧
        (r = none → RenameOpen req fromDsn newDsn h') := by
  apply obeys_bind.mpr
  apply obeys_requireAccess hc hnew
  · intro rc a ha
    refine ⟨?_, nofun⟩
    rintro _ ⟨⟩
    exact refusalSent_snoc hc.1 ha
  · apply (obeys_volumeGate rfl hc.permitted.1 (hold.snoc _)).imp
    rintro h' r ⟨hu, hsub, hlocated⟩
    refine ⟨fun a _ => hu.sent _, fun hnone => ?_⟩
    obtain ⟨asked, hasked, hmem⟩ := hold.snoc ⟨.checkAuth newDsn .ALTER, (0 : Int)⟩
    obtain ⟨asked', hasked', hmem'⟩ := @granted_permitted h newDsn .ALTER
    exact ⟨⟨hu, ⟨asked, hasked, hsub _ hmem⟩, hlocated hnone⟩, asked', hasked', hsub _ hmem'⟩

theorem keeps_rename {fromDsn newDsn : List Char} :
    (mediator req).Keeps (RenameOpen req fromDsn newDsn)
      (service (.rename fromDsn newDsn)) := by
  apply Keeps.ask
  intro h hopen
  refine ⟨⟨hopen.1.1, ⟨hopen.1.2, hopen.2⟩, nofun⟩, fun rc => ?_⟩
  exact ⟨⟨unrefused_snoc hopen.1.1 nofun, hopen.1.2.snoc _⟩, hopen.2.snoc _⟩

theorem keeps_renameLocate {fromDsn newDsn : List Char} :
    (mediator req).Keeps (RenameOpen req fromDsn newDsn)
      (service (.locate (dsn44 fromDsn))) := by
  intro h hopen
  obtain ⟨hallow, hnext⟩ := keeps_locate h hopen.1
  exact ⟨hallow, fun located => ⟨hnext located, hopen.2.snoc _⟩⟩

theorem obeys_renameDataset {fromDsn newDsn : List Char} (hc : Checking h)
    (hfrom : Named h req fromDsn) (hnew : ∀ e, Named (h ++ [e]) req newDsn) :
    (mediator req).Obeys h (renameDataset req fromDsn newDsn) RefusalSent := by
  apply obeys_bind.mpr
  apply obeys_requireAccess hc hfrom
  · intro rc a ha
    exact refusalSent_snoc hc.1 ha
  · apply obeys_bind.mpr
    apply (obeys_renameGates hc.permitted granted_permitted (hnew _)).imp
    rintro h' r ⟨hrefused, hopen⟩
    cases r with
    | some a => exact hrefused a rfl
    | none =>
      apply Monitor.Obeys.imp (keeps_renameLocate.bind ?_ h' (hopen rfl))
      · exact fun _ reply hend => hend.1.1.sent reply
      · intro located
        cases located with
        | none => exact .ret _
        | some vol => exact keeps_rename.bind fun _ => .ret _

theorem obeys_processRename {name : List Char} (member : Option (List Char))
    (hname : req.datasetName = some name) (hfold : foldDsn name = some dsname) :
    (mediator req).Obeys [] (processRename req dsname member) RefusalSent := by
  have hallow : DsCall.Allowed req [] .readRequestContent := ⟨checking_nil.1, rfl, nofun⟩
  refine (obeys_ask_bind (m := mediator req)).mpr ⟨hallow, fun body => ?_⟩
  have hc := checking_nil.body body
  cases body with
  | error rc => exact obeys_report hc _
  | ok body =>
    dsimp only
    cases hbody : Mvsmf.processRename member.isSome body with
    | error a => exact obeys_report hc _
    | ok fromName =>
      cases member with
      | some newMember => exact obeys_renameMember hc (named_path hname hfold)
      | none =>
        apply obeys_renameDataset hc
        · exact .inr ⟨body, List.mem_append_right _ (List.mem_singleton.mpr rfl), hbody⟩
        · exact fun e => named_path hname hfold

theorem obeys_datasetPutHandler :
    (mediator req).Obeys [] (datasetPutHandler req) RefusalSent := by
  unfold datasetPutHandler
  cases hname : req.datasetName with
  | none => exact obeys_report checking_nil _
  | some name =>
    dsimp only
    cases hfold : foldDsn name with
    | none => exact obeys_report checking_nil _
    | some dsname =>
      dsimp only
      split
      · exact obeys_processRename none hname hfold
      · apply obeys_gated checking_nil (named_path hname hfold) fun _ => rfl
        apply keeps_isPds.bind
        intro pds
        apply Keeps.ite
        · exact .ret _
        · cases parseDataType req.dataType with
          | none => exact .ret _
          | some parsed =>
            obtain ⟨dataType, enc⟩ := parsed
            apply Keeps.ite
            · exact .ret _
            · apply (keeps_fopenRead (.inl rfl)).bind
              intro chk
              cases chk with
              | none => exact .ret _
              | some chk =>
                apply keeps_getFbRecordCount.bind
                intro count
                apply (keeps_checkIfMatch (.inl rfl)).bind
                intro failed
                cases failed with
                | some a => exact .ret _
                | none => exact keeps_storeTarget (.inl rfl) (.ret _) keeps_getFbRecordCount

theorem obeys_memberPutHandler :
    (mediator req).Obeys [] (memberPutHandler req) RefusalSent := by
  unfold memberPutHandler
  split
  · next name member hname hmember =>
    cases hfold : foldDsn name with
    | none => exact obeys_report checking_nil _
    | some dsname =>
      cases foldMember member with
      | none => exact obeys_report checking_nil _
      | some member =>
        have hdataset : NameOf dsname (qualified dsname member) := .inr ⟨member, rfl⟩
        dsimp only
        split
        · exact obeys_processRename (some member) hname hfold
        · apply obeys_gated checking_nil (named_path hname hfold) fun _ => rfl
          apply Keeps.ite
          · exact .ret _
          · cases parseDataType req.dataType with
            | none => exact .ret _
            | some parsed =>
              obtain ⟨dataType, enc⟩ := parsed
              apply keeps_datasetCataloged.bind
              intro cataloged
              apply Keeps.ite
              · exact .ret _
              · apply (keeps_checkIfMatch hdataset).bind
                intro failed
                cases failed with
                | some a => exact .ret _
                | none =>
                  apply (keeps_memberTarget hdataset).bind
                  intro target
                  cases target with
                  | error a => exact .ret _
                  | ok target =>
                    exact keeps_storeTarget hdataset (keeps_sendOpenFailure none _) (.ret _)
  · exact obeys_report checking_nil _

theorem obeys_datasetDeleteHandler (hc : Checking h) :
    (mediator req).Obeys h (datasetDeleteHandler req) RefusalSent := by
  unfold datasetDeleteHandler
  cases hname : req.datasetName with
  | none => exact obeys_report hc _
  | some name =>
    dsimp only
    cases hfold : foldDsn name with
    | none => exact obeys_report hc _
    | some dsname =>
      apply obeys_gated hc (named_path hname hfold) fun _ => rfl
      apply keeps_locate.bind
      intro located
      cases located with
      | none => exact .ret _
      | some vol =>
        apply Keeps.bind
        · exact keeps_service nofun fun _ hopen => .inl hopen.2
        · exact fun rc => .ret _

theorem obeys_memberDeleteHandler (hc : Checking h) :
    (mediator req).Obeys h (memberDeleteHandler req) RefusalSent := by
  unfold memberDeleteHandler
  split
  · next name member hname hmember =>
    cases hfold : foldDsn name with
    | none => exact obeys_report hc _
    | some dsname =>
      cases foldMember member with
      | none => exact obeys_report hc _
      | some member =>
        apply obeys_gated hc (named_path hname hfold) fun _ => rfl
        apply (keeps_fopenRead (.inr ⟨member, rfl⟩)).bind
        intro fp
        cases fp with
        | none => exact .ret _
        | some fp =>
          apply Keeps.bind
          · exact keeps_service nofun fun _ hopen => .inr ⟨dsname, member, rfl, hopen.2⟩
          · exact fun rc => .ret _
  · exact obeys_report hc _

theorem obeys_handler (op : DsOperation) :
    (mediator req).Obeys [] (op.handler req) RefusalSent := by
  cases op with
  | read => exact obeys_datasetGetHandler checking_nil
  | listMembers => exact obeys_memberListHandler checking_nil
  | readMember => exact obeys_memberGetHandler checking_nil
  | write => exact obeys_datasetPutHandler
  | writeMember => exact obeys_memberPutHandler
  | deleteMember => exact obeys_memberDeleteHandler checking_nil
  | delete => exact obeys_datasetDeleteHandler checking_nil

end DsProg

open Prog DsProg

/-- Every call of a data set operation has the checks behind it that it needs, and a refusal is what
is answered. -/
theorem operation_mediated (op : DsOperation) (req : DsRequest) :
    (op.handler req).Every fun t reply =>
      (∀ before e behind, t = before ++ e :: behind → DsCall.Allowed req before e.1) ∧
        RefusalSent t reply := by
  apply every_iff.mpr
  intro t reply hrun
  refine ⟨fun before e behind ht => (obeys_handler op).history_allowed hrun ht, ?_⟩
  exact (obeys_handler op).history_result hrun

/-- The calls of a run with a refusal. -/
theorem refused_calls {op : DsOperation} {req : DsRequest} {t : List DsEvent} {reply : DsReply}
    (hrun : Run (op.handler req) t reply) {dsname : List Char} {attr : RacfAttr} {rc : Int}
    (hmem : ⟨.checkAuth dsname attr, rc⟩ ∈ t) (hrc : rc ≠ 0) :
    ∀ e ∈ t, e.1 = .readRequestContent ∨ ∃ n a, e.1 = .checkAuth n a := by
  obtain ⟨before, behind, ht⟩ := List.append_of_mem hmem
  have hallowed : ∀ before e behind, t = before ++ e :: behind → DsCall.Allowed req before e.1 :=
    fun _ _ _ ht => (obeys_handler op).history_allowed hrun ht
  -- nothing is called behind a refusal
  have hlast : behind = [] := by
    cases behind with
    | nil => rfl
    | cons e behind =>
      have hunrefused := (hallowed _ _ _ (ht.trans (List.append_cons ..))).1
      exact absurd (hunrefused dsname attr rc (by simp)) hrc
  have hbefore := (hallowed _ _ _ ht).covered
  intro e he
  rw [ht, hlast] at he
  rcases List.mem_append.mp he with he | he
  · exact hbefore e he
  · exact .inr ⟨dsname, attr, congrArg Sigma.fst (List.mem_singleton.mp he)⟩

/-- Where the checks and the body do not depend on the data sets of the system, a refused request does
not either: it calls and answers the same in any state, and leaves it as it is. -/
theorem refused_blind (op : DsOperation) (req : DsRequest) {σ : Type}
    (world : World DsCall DsCall.Ans σ) (hauth : ∀ dsname attr, world.Blind (.checkAuth dsname attr))
    (hbody : world.Blind .readRequestContent) (s s' : σ) {dsname : List Char} {attr : RacfAttr}
    {rc : Int} (hmem : ⟨.checkAuth dsname attr, rc⟩ ∈ ((op.handler req).exec world s).1)
    (hrc : rc ≠ 0) :
    (op.handler req).exec world s' =
        (((op.handler req).exec world s).1, ((op.handler req).exec world s).2.1, s') ∧
      ∃ a, refusal rc = some a ∧ ((op.handler req).exec world s).2.1 = .report a := by
  have hrun := exec_run world (op.handler req) s
  refine ⟨exec_blind (fun e he => ?_) s', ?_⟩
  · rcases refused_calls hrun hmem hrc e he with hcall | ⟨n, a, hcall⟩
    · rw [hcall]
      exact hbody
    · rw [hcall]
      exact hauth n a
  · exact (obeys_handler op).history_result hrun dsname attr rc hmem hrc

/-- A catalog of data sets that nobody may alter. -/
def sealedCatalog : World DsCall DsCall.Ans (List (List Char))
  | .checkAuth _ attr, s => (if attr = .ALTER then 8 else 0, s)
  | .readRequestContent, s => (.error .bad, s)
  | .locate dsn, s => (if s.contains dsn then some [] else none, s)
  | .dscbdv _ _, s => (none, s)
  | .dscbv _, s => (none, s)
  | .listpd _ _, s => ((false, 0), s)
  | .fopenRead _, s => (none, s)
  | .fopenDirectory _, s => (none, s)
  | .fopenWrite _, s => (none, s)
  | .storeBody _, s => (.openFailed, s)
  | .remove name, s => (0, s.filter (dsn44 name != ·))
  | .renmem _ _ _, s => (8, s)
  | .rename old new, s => (0, dsn44 new :: s.filter (dsn44 old != ·))

/-- A request for a data set, without a header. -/
def plainRequest (name : String) : DsRequest where
  dataType := none
  transferEncoding := none
  contentLength := none
  datasetName := some name.toList
  memberName := none
  volumeSerial := none
  contentType := none
  ifMatch := none
  ifNoneMatch := none
  returnEtag := none
  start := none
  pattern := none
  maxItems := none
  attributes := none
  httpx := ⟨HttpCp.cp037, HttpCp.cp037⟩
  x := .sound

theorem refused_blind_delete :
    let p := DsOperation.delete.handler (plainRequest "sys1.parmlib")
    p.exec sealedCatalog [dsn44 "SYS1.PARMLIB".toList] =
        ((p.exec sealedCatalog []).1, (p.exec sealedCatalog []).2.1,
          [dsn44 "SYS1.PARMLIB".toList]) ∧
      ∃ a, refusal 8 = some a ∧ (p.exec sealedCatalog []).2.1 = .report a :=
  refused_blind .delete (plainRequest "sys1.parmlib") sealedCatalog
    (fun _ _ _ _ => ⟨rfl, rfl⟩) (fun _ _ => ⟨rfl, rfl⟩) [] [dsn44 "SYS1.PARMLIB".toList]
    (.head _) (by decide)

end Mvsmf
