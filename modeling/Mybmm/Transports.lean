import Mybmm.CanSessions
import Mybmm.Bt

/-! The five transports behind one interface. An open that fails is to leave the
session closed; can_ip and bt do so only in part. -/
namespace Mybmm.Transports
open Machine Arrays Feed Routine Sessions Sessions.Transport Streams Devserver Can CanSessions Bt

variable {σ η : Type}

def quiet (s : σ) (code : Int) : Reply σ η := ⟨code,s,[]⟩

def read {ρ : Type} (s : σ) : Outcome ρ → Option (Reply σ η)
  | .returned code _ _ => some (quiet s code)
  | _ => none

/-! What comes from outside in the course of a call, beside its arguments. -/

abbrev CanReading := BitVec 32 × Nat × List Byte × RawFrame × Results
abbrev CanWriting := BitVec 32 × List Byte × (RawFrame → Int)
abbrev CanIpReading := BitVec 32 × Nat × List Byte × RawFrame × Pieces Byte
abbrev CanIpWriting := BitVec 32 × List Byte × (List Byte → Int) × Pieces Byte
abbrev CanIpClosing := (List Byte → Int) × Pieces Byte
abbrev StreamReading := Nat × List Poll
abbrev IpWriting := List Byte × Bool × (List Byte → Int)
abbrev SerialOpening := (CString.Text → Bool) × (CString.Text → Int)
abbrev SerialWriting := List Byte × (List Byte → Int)
abbrev BtReading := Nat × List Byte × List Byte
abbrev BtWriting := List Byte × (List Byte → Bool)

def can : Transport CanSession Int Link CanReading CanWriting Unit where
  held s := holding s.fd
  opens s link := some (canOpen s link)
  reads s := fun (id,buflen,buf,stale,results) => read s (canRead s.fd id buflen buf stale results)
  writes s := fun (id,buf,write) => some (quiet s (canWrite s id buf write))
  closes s _ := some (canClose s)

def canIp : Transport CanIpSession Int Server CanIpReading CanIpWriting CanIpClosing where
  held s := holding s.fd
  opens := canIpOpen
  reads s := fun (id,buflen,buf,stale,feed) => read s (canIpRead s.fd id buflen buf stale feed)
  writes s := fun (id,buf,write,feed) => (canIpWrite s id buf write feed).map (quiet s)
  closes s := fun (write,feed) => canIpClose s write feed

def ip : Transport IpSession Int Network StreamReading IpWriting Unit where
  held s := holding s.fd
  opens := ipOpen
  reads s := fun (buflen,polls) => (ipRead s buflen polls).map fun result => quiet s result.1
  writes s := fun (buf,ready,write) => some (quiet s (ipWrite s buf ready write))
  closes s _ := some (ipClose s)

def serial : Transport SerialSession Int SerialOpening StreamReading SerialWriting Unit where
  held s := holding s.fd
  opens s := fun (access,openPath) => some (serialOpen s access openPath)
  reads s := fun (buflen,polls) => (serialRead s buflen polls).map fun result => quiet s result.1
  writes s := fun (buf,write) => some (quiet s (serialWrite s buf write))
  closes s _ := some (serialClose s)

def bt : Transport BtSession Nat Device BtReading BtWriting Unit where
  held s := s.c
  opens s device := some (btOpen s device)
  reads s := fun (buflen,first,second) => let (code,_,s) := btRead s buflen first second; some (quiet s code)
  writes s := fun (buf,writeChar) => let (code,s) := btWrite s buf writeChar; some (quiet s code)
  closes s _ := some (btClose s)

/-- Once it has a socket, the call connects, sets the time to wait and gets a reply. -/
def CanIpOpens (s : CanIpSession) (server : Server) : Prop :=
  s.fd < 0 → 0 ≤ server.socket → ∀ address, peer server.gethostbyname s.target = some address →
    server.connect address s.port = true ∧ server.setsockopt = true ∧
      ∀ bytes conn, value (devserverRecv false 0) ⟨server.feed,0,s.unit,[]⟩ = some (bytes,conn) → 0 ≤ bytes

/-- A name that does not convert finds the session closed, and a connection that is
made starts to notify. -/
def BtOpens (s : BtSession) (device : Device) : Prop :=
  if device.stringToUuid then device.connect ≠ none → device.notificationStart = true else s.c = none

/-! Descriptors. -/

@[simp] theorem holding_eq_none_iff (fd : Int) : holding fd = none ↔ fd < 0 := by
  by_cases closed : fd < 0 <;> simp [holding,closed]

private theorem holding_some {fd : Int} (valid : 0 ≤ fd) : holding fd = some fd := if_neg (by omega)

section Quiet

variable {ω ρ υ χ : Type} {t : Transport σ η ω ρ υ χ} {s : σ} {r : Reply σ η}

private theorem quiet_unchanged (code : Int) : t.Unchanged s (quiet s code) := ⟨rfl,rfl⟩

private theorem map_unchanged {α : Type} {o : Option α} {code : α → Int}
    (called : (o.map fun a => quiet s (code a)) = some r) :
    t.Unchanged s r := by
  obtain ⟨a,_,rfl⟩ := Option.map_eq_some_iff.mp called
  exact quiet_unchanged (code a)

private theorem read_unchanged {κ : Type} {outcome : Outcome κ} (called : read s outcome = some r) : t.Unchanged s r := by
  cases outcome with
  | returned code buf rest =>
    obtain rfl := Option.some.inj called
    exact quiet_unchanged code
  | blocked | undefined => contradiction

private theorem descriptor_closed {t : Transport σ Int ω ρ υ χ} {s : σ} (next : σ) (fd : Int) (holds : t.held s = holding fd)
    (gone : t.held next = none) :
    t.Closed s (if 0 ≤ fd then ⟨0,next,[.released fd]⟩ else ⟨0,s,[]⟩) := by
  split_ifs with valid
  · exact ⟨gone,by rw [holds,holding_some valid]; rfl⟩
  · have closed : t.held s = none := by rw [holds,holding_eq_none_iff]; omega
    exact ⟨closed,by rw [closed]; rfl⟩

end Quiet

/-! The transports, one by one. -/

private theorem can_lawful : can.Lawful fun _ _ => True where
  opens s link r _ called := by
    obtain rfl := Option.some.inj called
    unfold canOpen
    split_ifs with already refused
    · exact .already s.fd (holding_some already)
    · exact .refused 1 _ one_ne_zero ((holding_eq_none_iff _).mpr refused)
    · cases canSetUp s link with
      | some _ => exact .established _ link.socket (holding_some (Int.not_lt.mp refused))
      | none => exact .undone 1 _ link.socket one_ne_zero rfl
  leaves s link bad := absurd trivial bad
  reads s outcomes r called := read_unchanged called
  writes s outcomes r called := by
    obtain rfl := Option.some.inj called
    exact quiet_unchanged _
  closes s outcomes r called := by
    obtain rfl := Option.some.inj called
    exact descriptor_closed _ s.fd rfl rfl

private theorem ip_lawful : ip.Lawful fun _ _ => True where
  opens s net r _ called := by
    change ipOpen s net = some r at called
    unfold ipOpen at called
    split_ifs at called with already refused
    · obtain rfl := Option.some.inj called
      exact .already s.fd (holding_some already)
    · obtain rfl := Option.some.inj called
      exact .refused 1 _ one_ne_zero ((holding_eq_none_iff _).mpr refused)
    · obtain ⟨address,_,rfl⟩ := Option.map_eq_some_iff.mp called
      split_ifs with connected
      · exact .established _ net.socket (holding_some (Int.not_lt.mp refused))
      · exact .undone 1 _ net.socket one_ne_zero rfl
  leaves s net bad := absurd trivial bad
  reads s outcomes r called := map_unchanged called
  writes s outcomes r called := by
    obtain rfl := Option.some.inj called
    exact quiet_unchanged _
  closes s outcomes r called := by
    obtain rfl := Option.some.inj called
    exact descriptor_closed _ s.fd rfl rfl

private theorem serial_lawful : serial.Lawful fun _ _ => True where
  opens s outcomes r _ called := by
    obtain ⟨access,openPath⟩ := outcomes
    obtain rfl := Option.some.inj called
    unfold serialOpen
    split_ifs with already
    · exact .already s.fd (holding_some already)
    · simp only
      split_ifs with refused
      · exact .refused 1 _ one_ne_zero ((holding_eq_none_iff _).mpr refused)
      · exact .established _ _ (holding_some (Int.not_lt.mp refused))
  leaves s outcomes bad := absurd trivial bad
  reads s outcomes r called := map_unchanged called
  writes s outcomes r called := by
    obtain rfl := Option.some.inj called
    exact quiet_unchanged _
  closes s outcomes r called := by
    obtain rfl := Option.some.inj called
    exact descriptor_closed _ s.fd rfl rfl

private theorem canIp_opened (s : CanIpSession) (server : Server) (r : Reply CanIpSession Int) (kept : CanIpOpens s server)
    (called : canIpOpen s server = some r) : canIp.Opened s r := by
  unfold canIpOpen at called
  by_cases already : 0 ≤ s.fd
  · rw [if_pos already] at called
    obtain rfl := Option.some.inj called
    exact .already s.fd (holding_some already)
  · rw [if_neg already] at called
    by_cases refused : server.socket < 0
    · rw [if_pos refused] at called
      obtain rfl := Option.some.inj called
      exact .refused 1 _ one_ne_zero ((holding_eq_none_iff _).mpr refused)
    · rw [if_neg refused] at called
      obtain ⟨address,found,called⟩ := Option.bind_eq_some_iff.mp called
      obtain ⟨connected,timed,replied⟩ := kept (by omega) (Int.not_lt.mp refused) address found
      simp only [connected,timed,not_true_eq_false,if_false] at called
      obtain ⟨⟨bytes,conn⟩,reply,rfl⟩ := Option.map_eq_some_iff.mp called
      rw [if_neg (Int.not_lt.mpr (replied bytes conn reply))]
      exact .established _ server.socket (holding_some (Int.not_lt.mp refused))

private theorem canIp_leaves (s : CanIpSession) (server : Server) (lost : ¬ CanIpOpens s server) :
    ∃ r, canIpOpen s server = some r ∧ r.code ≠ 0 ∧ canIp.held r.session ≠ none := by
  unfold CanIpOpens at lost
  push Not at lost
  obtain ⟨closed,valid,address,found,lost⟩ := lost
  have kept (unit : Byte) : holding ({ s with fd := server.socket, unit := unit } : CanIpSession).fd ≠ none := by
    rw [holding_some valid]
    simp
  unfold canIpOpen
  rw [if_neg (by omega),if_neg (by omega),found,Option.bind_some]
  simp only
  by_cases connected : server.connect address s.port = true
  · rw [if_neg (by simpa using connected)]
    by_cases timed : server.setsockopt = true
    · rw [if_neg (by simpa using timed)]
      obtain ⟨bytes,conn,reply,failed⟩ := lost connected timed
      rw [reply]
      refine ⟨_,rfl,?_,kept conn.unit⟩
      simp only [if_pos failed]
      decide
    · rw [if_pos (by simpa using timed)]
      exact ⟨_,rfl,one_ne_zero,kept s.unit⟩
  · rw [if_pos (by simpa using connected)]
    exact ⟨_,rfl,one_ne_zero,kept s.unit⟩

private theorem canIp_lawful : canIp.Lawful CanIpOpens where
  opens := canIp_opened
  leaves := canIp_leaves
  reads s outcomes r called := read_unchanged called
  writes s outcomes r called := map_unchanged called
  closes s outcomes r called := by
    obtain ⟨write,feed⟩ := outcomes
    change canIpClose s write feed = some r at called
    have closed := descriptor_closed (t := canIp) { s with fd := -1 } s.fd rfl rfl
    unfold canIpClose at called
    split_ifs at called closed with held
    · obtain ⟨_,_,rfl⟩ := Option.map_eq_some_iff.mp called
      exact closed
    · obtain rfl := Option.some.inj called
      exact closed

private theorem bt_opened (s : BtSession) (device : Device) (kept : BtOpens s device) : bt.Opened s (btOpen s device) := by
  unfold BtOpens at kept
  unfold btOpen
  by_cases converted : device.stringToUuid = true
  · rw [if_pos converted] at kept
    rw [if_neg (by simpa using converted)]
    cases connection : device.connect with
    | none => exact .refused 1 _ one_ne_zero rfl
    | some c =>
      have started : device.notificationStart = true := kept (by simp [connection])
      simp only [started,not_true_eq_false,if_false]
      exact .established _ c rfl
  · rw [if_neg converted] at kept
    rw [if_pos (by simpa using converted)]
    exact .refused 1 s one_ne_zero kept

private theorem bt_leaves (s : BtSession) (device : Device) (lost : ¬ BtOpens s device) :
    (btOpen s device).code ≠ 0 ∧ bt.held (btOpen s device).session ≠ none := by
  unfold BtOpens at lost
  unfold btOpen
  by_cases converted : device.stringToUuid = true
  · rw [if_pos converted] at lost
    push Not at lost
    obtain ⟨connected,started⟩ := lost
    obtain ⟨c,connection⟩ := Option.ne_none_iff_exists'.mp connected
    rw [if_neg (by simpa using converted),connection]
    simp only
    rw [if_pos (by simpa using started)]
    exact ⟨one_ne_zero,by simp [bt]⟩
  · rw [if_neg converted] at lost
    rw [if_pos (by simpa using converted)]
    exact ⟨one_ne_zero,lost⟩

private theorem btWait_c (buflen : Nat) (s : BtSession) (arrivals : List (List Byte)) : (btWait buflen s arrivals).2.2.c =
    s.c := by
  induction arrivals generalizing s with
  | nil =>
    rw [btWait]
    split_ifs <;> rfl
  | cons bytes arrivals ih =>
    rw [btWait]
    split_ifs
    · exact ih (notificationCb s bytes)
    · rfl

private theorem bt_lawful : bt.Lawful BtOpens where
  opens s device r kept called := by
    obtain rfl := Option.some.inj called
    exact bt_opened s device kept
  leaves s device lost := ⟨btOpen s device,rfl,bt_leaves s device lost⟩
  reads s outcomes r called := by
    obtain ⟨buflen,first,second⟩ := outcomes
    obtain rfl := Option.some.inj called
    refine ⟨rfl,?_⟩
    change (btRead s buflen first second).2.2.c = s.c
    unfold btRead
    split_ifs
    · rfl
    · exact btWait_c buflen s [first,second]
  writes s outcomes r called := by
    obtain ⟨buf,writeChar⟩ := outcomes
    obtain rfl := Option.some.inj called
    refine ⟨rfl,?_⟩
    change (btWrite s buf writeChar).2.c = s.c
    unfold btWrite
    split_ifs <;> rfl
  closes s outcomes r called := by
    obtain rfl := Option.some.inj called
    cases held : s.c with
    | none => simp [Transport.Closed,bt,btClose,held]
    | some c => simp [Transport.Closed,bt,btClose,held]

/-- A run of any of the transports keeps to it, of can_ip and bt exactly when no open
is of those that keep what they fail with. -/
theorem transports_tidy_iff (interface target : CString.Text) (port : Int) (bitrate : BitVec 32) (f : Bool)
    (onCan : List (Call Link CanReading CanWriting Unit)) (onIp : List (Call Network StreamReading IpWriting Unit))
    (onSerial : List (Call SerialOpening StreamReading SerialWriting Unit))
    (onCanIp : List (Call Server CanIpReading CanIpWriting CanIpClosing))
    (onBt : List (Call Device BtReading BtWriting Unit)) :
    (∀ visit ∈ visits can.step (⟨-1,interface,bitrate,f⟩,[]) onCan, can.Tidy visit.1 visit.2) ∧
      (∀ visit ∈ visits ip.step (ipNew target,[]) onIp, ip.Tidy visit.1 visit.2) ∧
      (∀ visit ∈ visits serial.step (serialNew target,[]) onSerial, serial.Tidy visit.1 visit.2) ∧
      ((∀ visit ∈ visits canIp.step (⟨-1,target,port,interface,0⟩,[]) onCanIp, canIp.Tidy visit.1 visit.2) ↔
        ∀ visit ∈ visits canIp.step (⟨-1,target,port,interface,0⟩,[]) onCanIp, Opening CanIpOpens visit.1.1 visit.2) ∧
      ((∀ visit ∈ visits bt.step (btNew,[]) onBt, bt.Tidy visit.1 visit.2) ↔
        ∀ visit ∈ visits bt.step (btNew,[]) onBt, Opening BtOpens visit.1.1 visit.2) :=
  ⟨run_tidy can_lawful _ rfl onCan,run_tidy ip_lawful _ rfl onIp,run_tidy serial_lawful _ rfl onSerial,
    run_tidy_iff canIp_lawful _ rfl onCanIp,run_tidy_iff bt_lawful _ rfl onBt⟩

def refusing : Server := ⟨3,fun _ => none,fun _ _ => false,true,[]⟩

def silent : Device := ⟨true,some 7,false⟩

/-- The second open reports success on what the first has left; closing gives back a
connection that is gone. -/
theorem left_open :
    (∃ s uses, canIpOpen ⟨-1,"10.1.1.7".toList,3930,"can0".toList,0⟩ refusing = some ⟨1,s,uses⟩ ∧ s.fd = 3 ∧
      canIpOpen s refusing = some ⟨0,s,[]⟩) ∧
      ¬ ∀ visit ∈ visits bt.step (btNew,[]) [.opens silent,.closes ()], bt.Tidy visit.1 visit.2 := by
  refine ⟨⟨_,_,rfl,rfl,rfl⟩,fun all => ?_⟩
  obtain ⟨live,settled⟩ := (all ((⟨some 7,[],false⟩,[]),.closes ()) (by simp [visits,Transport.step,Transport.call,bt,
    btOpen,btNew,silent,settle])).released _ rfl
  simp [btClose,settle] at settled

end Mybmm.Transports
