import Mybmm.Reconfig
import Mybmm.Support.Machine

/-! main.c: the start of the program and one pass of its loop. A pass reads the
inverter and the packs, scans every cell, works out the state of charge, lets the
charge controller decide, and writes the result to the inverter. A run in which
`reconfig` does not come back from cancelling a thread has no further pass. -/
namespace Mybmm.Main
open CString Libc Cfg Config Flags Battery Modules Inverters Packs Reconfig

structure Args where
  configfile : Option Text := none
  debug : Int := 0
  batteryChem : Int := -1
  batteryCap : Int := -1
  invType : Text := []
  invTransport : Text := []
  invTarget : Text := []
  packType : Text := []
  packTransport : Text := []
  packTarget : Text := []

def specified (type transport target : Text) : Memory :=
  strcpy (strcpy (strcpy (fun _ => nul) 69 type) 101 transport) 133 target

/-- `-b` replaces the chemistry and has the limits resolved again. -/
def batteryOption (args : Args) (conf : Conf) : Conf :=
  if args.batteryChem ≥ 0 then
    batteryInit { conf with
      batteryChem := args.batteryChem
      capacity := if args.batteryCap ≥ 0 then args.batteryCap else 100
      cellLow := -1, cellCritLow := -1, cellHigh := -1, cellCritHigh := -1, cRate := -1 }
  else conf

/-- `-i`: an inverter that cannot be added is passed over. -/
def inverterOption (args : Args) (env : Env) (conf : Conf) : Option Conf :=
  if args.invType = [] then some conf
  else if env.calloc inverterSection = false then none
  else
    let inv : Inverter := { text := specified args.invType args.invTransport args.invTarget }
    some (inverterAdd env inv conf).2

/-- `-p`: whether or not the pack could be added, `pack_init` runs again. -/
def packOption (args : Args) (env : Env) (conf : Conf) : Option Conf :=
  if args.packType = [] then some conf
  else if env.calloc "pack".toList = false then none
  else
    let pp : Pack := { text := specified args.packType args.packTransport args.packTarget }
    some (packInit env (packAdd env "pack".toList pp conf).2).2

def init (args : Args) (env : Env) : Option Conf := do
  let conf ← getConfig env args.configfile args.debug
  let conf ← inverterOption args env (batteryOption args (getMqttConf conf))
  packOption args env conf

/-! The scan of the cells. -/

/-- The inner loop. It leaves at the first critical cell: a low one only latches,
a high one also stops the charge and forces the state of charge. -/
def scanCells (conf : Conf) (extent : Extent) : List ℚ → Conf × Extent × Bool
  | [] => (conf,extent,true)
  | v :: rest =>
    let extent := extent.add v
    if v ≤ conf.cellCritLow then (setState conf .critCellvolt,extent,false)
    else if v ≥ conf.cellCritHigh then
      (forceSoc (chargeStop (setState conf .critCellvolt)) 101,extent,false)
    else scanCells conf extent rest

structure Totals where
  voltage : ℚ := 0
  current : ℚ := 0
  capacity : ℚ := 0
  temp : ℚ := 0
  reported : Nat := 0

def countPack (extent : Extent) (pp : Pack) (conf : Conf) : Conf :=
  { conf with
    packTempMax := pp.temps.foldl (fun m t => if t > m then t else m) conf.packTempMax
    packCellMin := if extent.min < conf.packCellMin then extent.min else conf.packCellMin
    packCellMax := if extent.max > conf.packCellMax then extent.max else conf.packCellMax }

def Totals.count (totals : Totals) (extent : Extent) (pp : Pack) : Totals where
  voltage := totals.voltage + extent.total
  current := totals.current + pp.current
  capacity :=
    if check pp.state PackState.discharging then totals.capacity + pp.capacity else totals.capacity
  temp := pp.temps.foldl (· + ·) totals.temp
  reported := totals.reported + 1

/-- The outer loop: packs that did not answer are passed over. -/
def scanPacks (conf : Conf) (totals : Totals) : List Pack → Conf × Totals × Bool
  | [] => (conf,totals,true)
  | pp :: rest =>
    if !check pp.state PackState.updated then scanPacks conf totals rest else
    match scanCells conf ⟨conf.cellCritHigh,0,0⟩ pp.cellvolt with
    | (conf,extent,true) => scanPacks (countPack extent pp conf) (totals.count extent pp) rest
    | (conf,_,false) => (conf,totals,false)

/-- A critical state ends when no cell was found out of range. -/
def latch (inRange : Bool) (conf : Conf) : Conf :=
  if isCritvolt conf ∧ inRange then
    let conf := clearState conf .critCellvolt
    if checkState conf .forceSoc then clearState conf .forceSoc else conf
  else conf

def scan (conf : Conf) : Conf × Totals :=
  let (conf,totals,inRange) := scanPacks conf {} conf.packs
  (latch inRange conf,totals)

/-! One pass. -/

/-- What one pass meets outside: a request to read the configuration again, the
answers of the devices, and the clock `charge_check` reads. -/
structure Tick where
  reconf : Option Env
  inverter : InverterReply
  packs : List PackReply
  clock : Clock

structure Loop where
  conf : Conf
  startup : Int

/-- How a pass ends: the state it leaves, what `inverter_write` was called with,
if it was called, and whether the program stops. -/
structure Pass where
  after : Loop
  written : Option Conf
  done : Bool

def reload (i : Tick) (conf : Conf) : Conf :=
  match i.reconf with
  | none => conf
  | some env => (reread env conf).2

def readInverter (reply : InverterReply) (conf : Conf) : Conf × Bool :=
  match conf.inverter with
  | none => (conf,false)
  | some inv =>
    let (inv,frequency) := inverterRead reply inv conf.frequency
    ({ conf with inverter := some inv, frequency := frequency },check inv.state InverterState.updated)

def resetScan (conf : Conf) : Conf :=
  { conf with packTempMax := -9999.99, packCellMax := -9999.99, packCellMin := 99999999.99 }

def resetReadings (conf : Conf) : Conf := { conf with batteryVoltage := 0, batteryAmps := 0 }

def resolveCapacity (totals : Totals) (conf : Conf) : Conf :=
  let report (conf : Conf) : Conf := { conf with kwh := conf.capacity * conf.systemVoltage / 1000 }
  if truncate conf.capacity ≠ 0 then conf
  else if conf.userCapacity > 0 then report { conf with capacity := conf.userCapacity }
  else if conf.packs ≠ [] ∧ totals.reported = conf.packs.length then
    report { conf with capacity := totals.capacity }
  else conf

def resolveReadings (invReported : Bool) (totals : Totals) (conf : Conf) : Conf :=
  let inv := conf.inverter.getD {}
  let conf := { conf with
    batteryTemp :=
      if totals.reported ≠ 0 then totals.temp / totals.reported
      else if invReported then inv.batteryTemp else 25 }
  if totals.reported ≠ 0 ∧ (conf.usePackv ≠ 0 ∨ invReported = false) then
    { conf with
      batteryVoltage := totals.voltage / totals.reported
      batteryAmps := totals.current / totals.reported }
  else if invReported then
    { conf with batteryVoltage := inv.batteryVoltage, batteryAmps := inv.batteryAmps }
  else conf

def resolveSoc (conf : Conf) : Conf :=
  { conf with
    soc :=
      if conf.userSoc < 0 then
        (conf.batteryVoltage - conf.dischargeVoltage) /
          (conf.chargeTargetVoltage - conf.dischargeVoltage) * 100
      else conf.userSoc
    soh := 100 }

/-- The first pass that writes does so without charging. -/
def softStart (startup : Int) (conf : Conf) : Conf :=
  if startup = 1 then { chargeStop conf with chargeAmps := 0.1, soc := 99.9 } else conf

/-- The count of passes since the start, up to the one that may start a charge. -/
def advance (s : Loop) : Loop :=
  if s.startup = 0 then s
  else if s.startup + 1 = 3 then
    ⟨if s.conf.soc < 95 then chargeStart s.conf else s.conf,0⟩
  else ⟨s.conf,s.startup + 1⟩

/-- The configuration with this pass's answers in it, and whether the inverter
reported, when the scan begins. -/
def heard (i : Tick) (s : Loop) : Conf × Bool :=
  let (conf,invReported) := readInverter i.inverter (resetReadings (reload i s.conf))
  (resetScan (packUpdateAll i.packs conf),invReported)

def conclude (i : Tick) (startup : Int) (invReported : Bool) (totals : Totals) (conf : Conf) : Pass :=
  let conf := chargeCheck i.clock (resolveSoc (resolveReadings invReported totals (resolveCapacity totals conf)))
  if invReported then
    let conf := softStart startup conf
    ⟨advance ⟨conf,startup⟩,some conf,false⟩
  else ⟨advance ⟨conf,startup⟩,none,false⟩

def pass (i : Tick) (s : Loop) : Pass :=
  let (conf,invReported) := heard i s
  let (conf,totals) := scan conf
  if invReported = false ∧ totals.reported = 0 then
    ⟨⟨conf,s.startup⟩,none,conf.filename.isNone && conf.inverter.isNone⟩
  else conclude i s.startup invReported totals conf

def step (s : Loop) (i : Tick) : Option Loop :=
  if (pass i s).done then none else some (pass i s).after

def start (args : Args) (env : Env) : Option Loop :=
  (init args env).map fun conf => ⟨chargeStart conf,1⟩

end Mybmm.Main
