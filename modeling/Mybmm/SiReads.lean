import Mathlib.Algebra.Order.Ring.Rat
import Mybmm.SiFreshness

/-! si.c: what a read makes of the frames it gets. One buffer on the stack is filled
five times over, and the last two times nothing looks at whether it was. -/
namespace Mybmm.SiReads
open Arrays Can CanData

abbrev Frame := Vector Byte 8

/-- What a call returns, and what it has put into the buffer, if anything. -/
structure Fetched where
  code : Int
  data : Option Frame
deriving DecidableEq

def siGetLocal (id : BitVec 32) (sessions : Nat → SiSession) : Option Fetched :=
  match siGetLocalCanData id 8 sessions with
  | .undefined => none
  | .failed => some ⟨1,none⟩
  | .delivered data => some ⟨0,some (Vector.ofFn fun i => data[i.val]?.getD 0)⟩

/-- `reads` tells of each try what the transport returns, and the frame then. A copy
of more bytes than the buffer has means nothing. -/
def siRemote (reads : Nat → Int × RawFrame) : (retries k : Nat) → Option Fetched
  | 0, _ => some ⟨1,none⟩
  | retries + 1, k =>
    let (bytes,frame) := reads k
    if bytes < 0 then some ⟨1,none⟩
    else if bytes = frameSize then
      if 8 < canDlc frame then none
      -- What the last try brings is in the buffer all the same.
      else some ⟨if 0 < retries then 0 else 1,
        some (Vector.ofFn fun i => if i.val < canDlc frame then byteAt frame (8 + i.val) else 0)⟩
    else siRemote reads retries (k + 1)

/-- Where the frames come from, as `si_new` sets it up: kept by the thread, or asked
of the transport. Either may change from one try to the next. -/
inductive Source where
  | localData (sessions : BitVec 32 → Nat → SiSession)
  | remoteData (reads : BitVec 32 → Nat → Int × RawFrame)

def Source.getData : Source → BitVec 32 → Option Fetched
  | .localData sessions, id => siGetLocal id (sessions id)
  | .remoteData reads, id => siRemote (reads id) 5 0

def Source.available (source : Source) (id : BitVec 32) : Option Frame := (source.getData id).bind Fetched.data

/-- The fields of the inverter, and the frequency of the configuration. -/
structure Readings where
  gridPower : ℚ
  frequency : ℚ
  batteryVoltage : ℚ
  batteryAmps : ℚ
  batteryTemp : ℚ
  batteryPower : ℚ
  loadPower : ℚ
  sitePower : ℚ

def getshort (data : Frame) (k : Nat) : ℚ := (data[k + 1]?.getD 0 ++ data[k]?.getD 0 : BitVec 16).toInt

def watts (data : Frame) : ℚ := getshort data 0 * 100 + getshort data 2 * 100 + getshort data 4 * 100

def siRead (source : Source) (data : Frame) (inv : Readings) : Option (Int × Readings) := do
  let got ← source.getData 0x300
  if got.code ≠ 0 then some (1,inv) else
  let data := got.data.getD data
  let inv := { inv with gridPower := watts data }
  let got ← source.getData 0x304
  if got.code ≠ 0 then some (1,inv) else
  let data := got.data.getD data
  let inv := { inv with frequency := getshort data 6 / 100 }
  let got ← source.getData 0x305
  if got.code ≠ 0 then some (1,inv) else
  let data := got.data.getD data
  let inv := { inv with
    batteryVoltage := getshort data 0 / 10
    batteryAmps := getshort data 2 / 10
    batteryTemp := 25
    batteryPower := getshort data 2 / 10 * (getshort data 0 / 10) }
  let got ← source.getData 0x308
  let data := got.data.getD data
  let inv := { inv with loadPower := watts data }
  let got ← source.getData 0x30a
  let data := got.data.getD data
  some (0,{ inv with sitePower := getshort data 0 * 100 })

/-! What is expected. -/

inductive Field where
  | gridPower | frequency | batteryVoltage | batteryAmps | loadPower | sitePower

def Field.frame : Field → BitVec 32
  | .gridPower => 0x300
  | .frequency => 0x304
  | .batteryVoltage => 0x305
  | .batteryAmps => 0x305
  | .loadPower => 0x308
  | .sitePower => 0x30a

def Field.decode : Field → Frame → ℚ
  | .gridPower, data => watts data
  | .frequency, data => getshort data 6 / 100
  | .batteryVoltage, data => getshort data 0 / 10
  | .batteryAmps, data => getshort data 2 / 10
  | .loadPower, data => watts data
  | .sitePower, data => getshort data 0 * 100

def Field.value : Field → Readings → ℚ
  | .gridPower, inv => inv.gridPower
  | .frequency, inv => inv.frequency
  | .batteryVoltage, inv => inv.batteryVoltage
  | .batteryAmps, inv => inv.batteryAmps
  | .loadPower, inv => inv.loadPower
  | .sitePower, inv => inv.sitePower

def expected (field : Field) (data : Option Frame) (inv : Readings) : ℚ :=
  match data with
  | some data => field.decode data
  | none => field.value inv

def ids : List (BitVec 32) := [0x300,0x304,0x305,0x308,0x30a]

/-- The same frames come, and the one of the field holds the same. -/
def Alike (field : Field) (source other : Source) : Prop :=
  (∀ id ∈ ids, (other.available id).isSome = (source.available id).isSome) ∧
    other.available field.frame = source.available field.frame

/-- A read that succeeds fills each field from the field's own frame, or leaves it as
it was, whatever the other frames hold. -/
def Owned (source : Source) (stale : Frame) (inv : Readings) : Prop :=
  ∀ after, siRead source stale inv = some (0,after) → ∀ field other filled, Alike field source other →
    siRead other stale inv = some (0,filled) → field.value filled = expected field (source.available field.frame) inv

/-- When all three frames that are looked at come in time, so do the two that are not. -/
def Complete (source : Source) : Prop :=
  (∀ id ∈ [0x300,0x304,0x305], ∃ got, source.getData id = some got ∧ got.code = 0) →
    (source.getData 0x308).isSome → (source.getData 0x30a).isSome →
      (source.available 0x308).isSome ∧ (source.available 0x30a).isSome

/-! What a read does. -/

private theorem siRemote_zero (reads : Nat → Int × RawFrame) (retries k : Nat) (got : Fetched)
    (ends : siRemote reads retries k = some got) (zero : got.code = 0) : ∃ data, got.data = some data := by
  induction retries generalizing k with
  | zero =>
    obtain rfl := Option.some.inj ends
    contradiction
  | succ retries ih =>
    simp only [siRemote] at ends
    split_ifs at ends with failed whole outside last
    · obtain rfl := Option.some.inj ends
      contradiction
    · obtain rfl := Option.some.inj ends
      exact ⟨_,rfl⟩
    · obtain rfl := Option.some.inj ends
      exact ⟨_,rfl⟩
    · exact ih (k + 1) ends

private theorem getData_zero {source : Source} {id : BitVec 32} {got : Fetched} (ends : source.getData id = some got)
    (zero : got.code = 0) : ∃ data, source.getData id = some ⟨0,some data⟩ := by
  suffices ∃ data, got.data = some data by
    obtain ⟨data,held⟩ := this
    obtain ⟨code,data'⟩ := got
    subst zero
    exact ⟨data,by rw [ends,← held]⟩
  cases source with
  | localData sessions =>
    simp only [Source.getData,siGetLocal] at ends
    split at ends
    · contradiction
    · obtain rfl := Option.some.inj ends
      contradiction
    · obtain rfl := Option.some.inj ends
      exact ⟨_,rfl⟩
  | remoteData reads => exact siRemote_zero (reads id) 5 0 got ends zero

def fill (grid phases battery load site : Frame) : Readings where
  gridPower := watts grid
  frequency := getshort phases 6 / 100
  batteryVoltage := getshort battery 0 / 10
  batteryAmps := getshort battery 2 / 10
  batteryTemp := 25
  batteryPower := getshort battery 2 / 10 * (getshort battery 0 / 10)
  loadPower := watts load
  sitePower := getshort site 0 * 100

structure Read (source : Source) (grid phases battery : Frame) (load site : Fetched) : Prop where
  grid : source.getData 0x300 = some ⟨0,some grid⟩
  phases : source.getData 0x304 = some ⟨0,some phases⟩
  battery : source.getData 0x305 = some ⟨0,some battery⟩
  load : source.getData 0x308 = some load
  site : source.getData 0x30a = some site

private theorem siRead_read {source : Source} {grid phases battery : Frame} {load site : Fetched}
    (read : Read source grid phases battery load site) (stale : Frame) (inv : Readings) :
    siRead source stale inv = some (0,fill grid phases battery (load.data.getD battery)
      (site.data.getD (load.data.getD battery))) := by
  simp only [siRead,read.grid,read.phases,read.battery,read.load,read.site,Option.bind_eq_bind,Option.bind_some]
  rfl

private theorem read_of_zero {source : Source} {stale : Frame} {inv after : Readings}
    (done : siRead source stale inv = some (0,after)) :
    ∃ grid phases battery load site, Read source grid phases battery load site := by
  simp only [siRead,Option.bind_eq_bind,Option.bind_eq_some_iff] at done
  obtain ⟨grid,first,done⟩ := done
  split_ifs at done with failed
  · simp at done
  obtain ⟨grid,first⟩ := getData_zero first (not_not.mp failed)
  simp only [Option.bind_eq_some_iff] at done
  obtain ⟨phases,second,done⟩ := done
  split_ifs at done with failed
  · simp at done
  obtain ⟨phases,second⟩ := getData_zero second (not_not.mp failed)
  simp only [Option.bind_eq_some_iff] at done
  obtain ⟨battery,third,done⟩ := done
  split_ifs at done with failed
  · simp at done
  obtain ⟨battery,third⟩ := getData_zero third (not_not.mp failed)
  simp only [Option.bind_eq_some_iff] at done
  obtain ⟨load,fourth,site,fifth,_⟩ := done
  exact ⟨grid,phases,battery,load,site,first,second,third,fourth,fifth⟩

private theorem read_value {source : Source} {grid phases battery data : Frame} {load site : Fetched}
    (read : Read source grid phases battery load site) (field : Field)
    (there : source.available field.frame = some data) :
    field.value (fill grid phases battery (load.data.getD battery) (site.data.getD (load.data.getD battery))) =
      field.decode data := by
  cases field with
  | gridPower =>
    simp only [Field.frame,Source.available,read.grid,Option.bind_some,Option.some.injEq] at there
    rw [← there]
    rfl
  | frequency =>
    simp only [Field.frame,Source.available,read.phases,Option.bind_some,Option.some.injEq] at there
    rw [← there]
    rfl
  | batteryVoltage | batteryAmps =>
    simp only [Field.frame,Source.available,read.battery,Option.bind_some,Option.some.injEq] at there
    rw [← there]
    rfl
  | loadPower =>
    simp only [Field.frame,Source.available,read.load,Option.bind_some] at there
    simp only [there,Option.getD_some]
    rfl
  | sitePower =>
    simp only [Field.frame,Source.available,read.site,Option.bind_some] at there
    simp only [there,Option.getD_some]
    rfl

private theorem read_complete {source : Source} {grid phases battery : Frame} {load site : Fetched}
    (read : Read source grid phases battery load site) (complete : Complete source) (field : Field) :
    ∃ data, source.available field.frame = some data := by
  have looked : ∀ id ∈ [0x300,0x304,0x305], ∃ got, source.getData id = some got ∧ got.code = 0 := by
    simp only [List.forall_mem_cons,List.not_mem_nil,false_implies,implies_true,and_true]
    exact ⟨⟨_,read.grid,rfl⟩,⟨_,read.phases,rfl⟩,⟨_,read.battery,rfl⟩⟩
  obtain ⟨load',site'⟩ := complete looked (by rw [read.load]; rfl) (by rw [read.site]; rfl)
  cases field with
  | gridPower => exact ⟨grid,by rw [Field.frame,Source.available,read.grid]; rfl⟩
  | frequency => exact ⟨phases,by rw [Field.frame,Source.available,read.phases]; rfl⟩
  | batteryVoltage | batteryAmps => exact ⟨battery,by rw [Field.frame,Source.available,read.battery]; rfl⟩
  | loadPower => exact Option.isSome_iff_exists.mp load'
  | sitePower => exact Option.isSome_iff_exists.mp site'

private theorem owned_of_complete {source : Source} (complete : Complete source) (stale : Frame) (inv : Readings) :
    Owned source stale inv := by
  intro after done field other filled alike done'
  obtain ⟨grid,phases,battery,load,site,read⟩ := read_of_zero done
  obtain ⟨grid',phases',battery',load',site',read'⟩ := read_of_zero done'
  obtain ⟨data,there⟩ := read_complete read complete field
  rw [siRead_read read'] at done'
  obtain ⟨_,rfl⟩ := Prod.mk.inj (Option.some.inj done')
  rw [there]
  exact read_value read' field (alike.2.trans there)

/-! A source that has just the given frames. -/

def answer : Option Frame → Fetched
  | some data => ⟨0,some data⟩
  | none => ⟨1,none⟩

private theorem answer_data (data : Option Frame) : (answer data).data = data := by cases data <;> rfl

def keeping (frames : BitVec 32 → Option Frame) : Source :=
  .localData fun id _ => ⟨if (frames id).isSome then BitVec.allOnes 32 else 0,Vector.replicate 16 ((frames id).getD default)⟩

private theorem keeping_getData (frames : BitVec 32 → Option Frame) (id : BitVec 32) (known : id ∈ ids) :
    (keeping frames).getData id = some (answer (frames id)) := by
  simp only [ids,List.mem_cons,List.not_mem_nil,or_false] at known
  rw [keeping,Source.getData,siGetLocal]
  cases held : frames id with
  | none =>
    have failed : siGetLocalCanData id 8 (fun _ => ⟨0,Vector.replicate 16 (default : Frame)⟩) = .failed := by
      rcases known with rfl | rfl | rfl | rfl | rfl <;> simp [siGetLocalCanData,siLocal]
    simp only [Option.isSome_none,Bool.false_eq_true,if_false,Option.getD_none,failed,answer]
  | some data =>
    have whole : data.toList.take 8 = data.toList := List.take_of_length_le (by simp)
    have delivered : siGetLocalCanData id 8 (fun _ => ⟨BitVec.allOnes 32,Vector.replicate 16 data⟩) =
        .delivered data.toList := by
      rcases known with rfl | rfl | rfl | rfl | rfl <;> simp [siGetLocalCanData,siLocal,whole]
    have same : (Vector.ofFn fun i : Fin 8 => data.toList[i.val]?.getD 0) = data := by
      ext i
      simp
    simp only [Option.isSome_some,if_true,Option.getD_some,delivered,answer,same]

private theorem keeping_available (frames : BitVec 32 → Option Frame) (id : BitVec 32) (known : id ∈ ids) :
    (keeping frames).available id = frames id := by
  rw [Source.available,keeping_getData frames id known,Option.bind_some,answer_data]

private theorem keeping_read (frames : BitVec 32 → Option Frame) {grid phases battery : Frame}
    (first : frames 0x300 = some grid) (second : frames 0x304 = some phases) (third : frames 0x305 = some battery) :
    Read (keeping frames) grid phases battery (answer (frames 0x308)) (answer (frames 0x30a)) where
  grid := by rw [keeping_getData frames _ (by decide),first]; rfl
  phases := by rw [keeping_getData frames _ (by decide),second]; rfl
  battery := by rw [keeping_getData frames _ (by decide),third]; rfl
  load := keeping_getData frames _ (by decide)
  site := keeping_getData frames _ (by decide)

/-! A field whose frame does not come is filled with what the buffer holds. -/

def swapped (source : Source) (id : BitVec 32) (data : Frame) : Source :=
  keeping fun i => if i = id then some data else source.available i

private theorem swapped_alike {source : Source} (id : BitVec 32) (here : (source.available id).isSome) (data : Frame)
    (field : Field) (other : field.frame ≠ id) (known : field.frame ∈ ids) : Alike field source (swapped source id data) := by
  constructor
  · intro i listed
    rw [swapped,keeping_available _ i listed]
    split
    · rename_i same
      rw [same,here]
      rfl
    · rfl
  · rw [swapped,keeping_available _ _ known,if_neg other]

private theorem telling (v : ℚ) : ∃ data : Frame, watts data ≠ v ∧ getshort data 0 * 100 ≠ v := by
  by_cases zero : v = 0
  · refine ⟨#v[1,0,0,0,0,0,0,0],?_⟩
    rw [zero]
    decide +kernel
  · refine ⟨Vector.replicate 8 0,?_⟩
    have silent : watts (Vector.replicate 8 0) = 0 ∧ getshort (Vector.replicate 8 0) 0 * 100 = 0 := by decide +kernel
    rw [silent.1,silent.2]
    exact ⟨Ne.symm zero,Ne.symm zero⟩

private theorem available_of_read {source : Source} {grid phases battery : Frame} {load site : Fetched}
    (read : Read source grid phases battery load site) :
    source.available 0x300 = some grid ∧ source.available 0x304 = some phases ∧ source.available 0x305 = some battery := by
  refine ⟨?_,?_,?_⟩
  · rw [Source.available,read.grid]
    rfl
  · rw [Source.available,read.phases]
    rfl
  · rw [Source.available,read.battery]
    rfl

private theorem load_of_owned {source : Source} {stale : Frame} {inv : Readings} {grid phases battery : Frame}
    {load site : Fetched} (owned : Owned source stale inv) (read : Read source grid phases battery load site) :
    (source.available 0x308).isSome := by
  obtain ⟨first,second,third⟩ := available_of_read read
  by_contra missing
  have missing : source.available 0x308 = none := by simpa using missing
  obtain ⟨data,power,_⟩ := telling inv.loadPower
  have read' := keeping_read (fun i => if i = 0x305 then some data else source.available i)
    ((if_neg (by decide)).trans first) ((if_neg (by decide)).trans second) (if_pos rfl)
  have alike := swapped_alike 0x305 (by rw [third]; rfl) data .loadPower (by decide) (by decide)
  have same := owned _ (siRead_read read stale inv) .loadPower _ _ alike (siRead_read read' stale inv)
  rw [Field.frame,missing,if_neg (show ¬ (0x308 : BitVec 32) = 0x305 by decide)] at same
  exact power same

private theorem site_of_owned {source : Source} {stale : Frame} {inv : Readings} {grid phases battery : Frame}
    {load site : Fetched} (owned : Owned source stale inv) (read : Read source grid phases battery load site) :
    (source.available 0x30a).isSome := by
  obtain ⟨first,second,third⟩ := available_of_read read
  by_contra missing
  have missing : source.available 0x30a = none := by simpa using missing
  obtain ⟨data,_,power⟩ := telling inv.sitePower
  have read' := keeping_read (fun i => if i = 0x308 then some data else source.available i)
    ((if_neg (by decide)).trans first) ((if_neg (by decide)).trans second) ((if_neg (by decide)).trans third)
  have alike := swapped_alike 0x308 (load_of_owned owned read) data .sitePower (by decide) (by decide)
  have same := owned _ (siRead_read read stale inv) .sitePower _ _ alike (siRead_read read' stale inv)
  rw [Field.frame,missing,if_pos rfl,if_neg (show ¬ (0x30a : BitVec 32) = 0x308 by decide)] at same
  exact power same

/-- The fields are their own exactly when the loads' frame and the site's are there
whenever the three before them are. -/
theorem owned_iff (source : Source) (stale : Frame) (inv : Readings) : Owned source stale inv ↔ Complete source := by
  constructor
  · intro owned looked load site
    simp only [List.forall_mem_cons,List.not_mem_nil,false_implies,implies_true,and_true] at looked
    obtain ⟨⟨_,first,zero⟩,⟨_,second,zero'⟩,_,third,zero''⟩ := looked
    obtain ⟨grid,first⟩ := getData_zero first zero
    obtain ⟨phases,second⟩ := getData_zero second zero'
    obtain ⟨battery,third⟩ := getData_zero third zero''
    obtain ⟨load,fourth⟩ := Option.isSome_iff_exists.mp load
    obtain ⟨site,fifth⟩ := Option.isSome_iff_exists.mp site
    have read : Read source grid phases battery load site := ⟨first,second,third,fourth,fifth⟩
    exact ⟨load_of_owned owned read,site_of_owned owned read⟩
  · exact fun complete => owned_of_complete complete stale inv

/-- An inverter that has sent its power, its voltages and its battery, 52.8 V at 28.8 A. -/
def battery : Frame := #v[0x10,0x02,0x20,0x01,0,0,0,0]

def withoutLoads : Source := .localData fun _ _ => ⟨0x31,Vector.replicate 16 battery⟩

/-- The load reads 81600 W, which are volts and amps of the battery. -/
theorem loads_from_battery : ¬ Owned withoutLoads (Vector.replicate 8 0) ⟨0,0,0,0,0,0,0,0⟩ := by
  intro owned
  have read : ∃ load site, Read withoutLoads battery battery battery load site := by
    refine ⟨⟨1,none⟩,⟨1,none⟩,?_,?_,?_,?_,?_⟩ <;> decide +kernel
  obtain ⟨load,site,read⟩ := read
  have loaded := load_of_owned owned read
  exact absurd loaded (by decide +kernel)

end Mybmm.SiReads
