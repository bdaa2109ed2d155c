import Mybmm.Support.Decimal
import Mybmm.JsonObjects
import Mybmm.JsonStrings
import Mybmm.JbdBalance

/-! What `pack_send_mqtt` and `inverter_mqtt_send` send: the text of an object that is made
of the fields one after the other, none of whose settings is looked at. The numbers in an
array are printed first and parsed then. -/
namespace Mybmm.Telemetry
open CString Config Flags Cellmon Decimal Json

/-- Texts with commas between them. -/
def listed : List Text → Text
  | [] => []
  | part :: parts => part ++ parts.flatMap (',' :: ·)

def arrayText (places : Nat) (values : List ℚ) : Text :=
  "[ ".toList ++ listed (values.map (fixed places)) ++ " ]".toList

/-- The labels of the states that are set. -/
def statesText {V : Type} [FlagSet V 16] (state : BitVec 16) (states : List (V × String)) : Text :=
  listed ((states.filter fun s => check state s.1).map fun s => s.2.toList)

def stringSetting (name : String) (s : Text) : Text × Option (Value ℚ) := (name.toList,jsonValueInitString s)

def numberSetting (lib : Numbers ℚ) (name : String) (x : ℚ) : Text × Option (Value ℚ) :=
  (name.toList,jsonValueInitNumber lib x)

/-- `get_timestamp` and the setting, when there is a time. -/
def timeSetting (timestamp : Option Text) : Settings ℚ := (timestamp.map (stringSetting "timestamp")).toList

/-- The fields of a pack that are sent. -/
structure SentPack where
  name : Text
  uuid : Text
  errmsg : Text
  info : PackInfo
  cellMin : ℚ
  cellMax : ℚ
  cellDiff : ℚ
  cellAvg : ℚ

def SentPack.temps (pp : SentPack) : List ℚ := pp.info.temps.toList.take pp.info.ntemps.toNat

def SentPack.cellvolt (pp : SentPack) : List ℚ := pp.info.cellvolt.toList.take pp.info.cells.toNat

def packStates : List (PackState × String) :=
  [(.charging,"Charging"),(.discharging,"Discharging"),(.balancing,"Balancing")]

/-- An array that is printed and parsed, unless its count is zero. It is set by its path, which
is a name alone (`dotset_plain`). -/
def arraySetting (lib : Numbers ℚ) (name : String) (places : Nat) (count : Int) (values : List ℚ) : Settings ℚ :=
  if count = 0 then [] else [(name.toList,jsonParseString lib (arrayText places values))]

def packSettings (lib : Numbers ℚ) (timestamp : Option Text) (pp : SentPack) : Settings ℚ :=
  timeSetting timestamp ++
  [stringSetting "name" pp.name,
    stringSetting "uuid" pp.uuid,
    numberSetting lib "state" pp.info.state.toNat,
    numberSetting lib "errcode" pp.info.error.toInt,
    stringSetting "errmsg" pp.errmsg,
    numberSetting lib "capacity" pp.info.capacity,
    numberSetting lib "voltage" pp.info.voltage,
    numberSetting lib "current" pp.info.current] ++
  arraySetting lib "temps" 1 pp.info.ntemps pp.temps ++
  arraySetting lib "cellvolt" 3 pp.info.cells pp.cellvolt ++
  [numberSetting lib "cell_min" pp.cellMin,
    numberSetting lib "cell_max" pp.cellMax,
    numberSetting lib "cell_diff" pp.cellDiff,
    numberSetting lib "cell_avg" pp.cellAvg,
    stringSetting "states" (statesText pp.info.state packStates),
    stringSetting "balancebits" (JbdBalance.packSendMqttBits pp.info)]

/-- What is handed to `mqtt_fullsend`; the payload is printed into memory that is allocated for it. -/
structure Message where
  address : Text
  clientid : Text
  message : Option Text
  topic : Text

def payload (lib : Numbers ℚ) (settings : Settings ℚ) (m : Memory) : Option Text :=
  jsonSerializeToString lib false (.object (setAll [] settings)) m

def tempSize : Nat := 256

def packTopic (conf : Conf) (pp : SentPack) : Text := conf.mqttTopic ++ '/' :: pp.name

/-- The texts that `temp` holds one after another. -/
def tempTexts (conf : Conf) (timestamp : Option Text) (pp : SentPack) : List Text :=
  timestamp.toList ++
  (if pp.info.ntemps = 0 then [] else [arrayText 1 pp.temps]) ++
  (if pp.info.cells = 0 then [] else [arrayText 3 pp.cellvolt]) ++
  [statesText pp.info.state packStates,JbdBalance.packSendMqttBits pp.info,packTopic conf pp]

/-- A count beyond its array and a text beyond `temp` leave it without meaning. -/
def packSendMqtt (lib : Numbers ℚ) (conf : Conf) (timestamp : Option Text) (m : Memory) (pp : SentPack) :
    Option Message :=
  if (pp.info.ntemps ≤ maxTemps ∧ pp.info.cells ≤ maxCells) ∧
      ∀ s ∈ tempTexts conf timestamp pp, s.length < tempSize then
    some
      { address := conf.mqttBroker
        clientid := pp.name
        message := payload lib (packSettings lib timestamp pp) m
        topic := packTopic conf pp }
  else none

/-- The fields of an inverter that are sent; `soc` is the configuration's. -/
structure SentInverter where
  name : Text
  uuid : Text
  soc : ℚ
  error : BitVec 32
  errmsg : Text
  batteryVoltage : ℚ
  batteryAmps : ℚ
  batteryPower : ℚ
  batteryTemp : ℚ
  gridPower : ℚ
  loadPower : ℚ
  sitePower : ℚ
  state : BitVec 16

def inverterStates : List (InverterState × String) :=
  [(.running,"Running"),(.charging,"Charging"),(.grid,"GridConnected"),(.gen,"GeneratorRunning")]

def inverterSettings (lib : Numbers ℚ) (timestamp : Option Text) (inv : SentInverter) : Settings ℚ :=
  timeSetting timestamp ++
  [stringSetting "name" inv.name,
    stringSetting "uuid" inv.uuid,
    numberSetting lib "capacity" inv.soc,
    numberSetting lib "errcode" inv.error.toInt,
    stringSetting "errmsg" inv.errmsg,
    numberSetting lib "battery_voltage" inv.batteryVoltage,
    numberSetting lib "battery_current" inv.batteryAmps,
    numberSetting lib "battery_power" inv.batteryPower,
    numberSetting lib "battery_temp" inv.batteryTemp,
    numberSetting lib "grid_power" inv.gridPower,
    numberSetting lib "load_power" inv.loadPower,
    numberSetting lib "site_power" inv.sitePower,
    numberSetting lib "site_power" inv.sitePower,
    stringSetting "states" (statesText inv.state inverterStates)]

def inverterMqttSend (lib : Numbers ℚ) (conf : Conf) (timestamp : Option Text) (m : Memory) (inv : SentInverter) :
    Message where
  address := conf.mqttBroker
  clientid := inv.name
  message := payload lib (inverterSettings lib timestamp inv) m
  topic := "/Inverter/".toList ++ inv.name

/-! Numbers that are printed with their places and parsed again. -/

/-- A printed number is read as one, whatever ends it. -/
structure Scans (lib : Numbers ℚ) (s : Text) : Prop where
  valid : lib.invalid (lib.strtod s).1 = false
  read : ∀ rest, Json.Ends rest → lib.strtod (s ++ rest) = ((lib.strtod s).1,s.length,false)

private theorem digit_numeric {c : Char} (digit : Libc.isdigit c = true) : numeric c = true := by simp [numeric,digit]

private theorem fixed_head (places : Nat) (x : ℚ) : (fixed places x).head?.any numeric = true := by
  obtain ⟨c,t,first⟩ := List.exists_cons_of_ne_nil
    (Nat.toDigits_ne_nil (b := 10) (n := roundEven (|x| * 10 ^ places) / 10 ^ places))
  have digit : Libc.isdigit c = true := isdigit_natural (first ▸ List.mem_cons_self)
  unfold fixed
  simp only [first]
  split_ifs
  · rfl
  · exact digit_numeric digit

private theorem fixed_isDecimal {places : Nat} (x : ℚ) : isDecimal (fixed places x) = true := by
  have plain : ((fixed places x).all fun c => c ≠ 'x' && c ≠ 'X') = true := by
    rw [List.all_eq_true]
    intro c member
    rcases fixed_chars member with rfl | rfl | digit
    · rfl
    · rfl
    · have other : c ≠ 'x' ∧ c ≠ 'X' := by constructor <;> rintro rfl <;> cases digit
      simp [other]
  have leading (n : Nat) (rest : Text) (c : Char) (t : Text)
      (same : Nat.toDigits 10 n ++ '.' :: rest = '0' :: c :: t) : c = '.' := by
    obtain ⟨d,u,first⟩ := List.exists_cons_of_ne_nil (Nat.toDigits_ne_nil (b := 10) (n := n))
    rw [first,List.cons_append] at same
    obtain ⟨rfl,tail⟩ := List.cons.inj same
    have zero := natural_zero first
    subst zero
    rw [Nat.toDigits_zero] at first
    cases first
    exact (List.cons.inj tail).1.symm
  unfold isDecimal
  rw [plain,Bool.and_true]
  split
  · rename_i c t same
    unfold fixed at same
    simp only at same
    split_ifs at same
    · cases same
    · exact decide_eq_true (leading _ _ c t same)
  · rename_i c t same
    unfold fixed at same
    simp only at same
    split_ifs at same
    · exact decide_eq_true (leading _ _ c t (List.cons.inj same).2)
    · obtain ⟨d,u,first⟩ := List.exists_cons_of_ne_nil
        (Nat.toDigits_ne_nil (b := 10) (n := roundEven (|x| * 10 ^ places) / 10 ^ places))
      have digit : Libc.isdigit d = true := isdigit_natural (first ▸ List.mem_cons_self)
      rw [first,List.nil_append,List.cons_append] at same
      rw [(List.cons.inj same).1] at digit
      cases digit
  · rfl

private theorem fixed_reads {lib : Numbers ℚ} {places : Nat} {x : ℚ} (scans : Scans lib (fixed places x)) :
    Reads lib (fixed places x) (lib.strtod (fixed places x)).1 where
  printable c member := by
    rcases fixed_chars member with rfl | rfl | digit
    · decide
    · decide
    · simp only [Libc.isdigit,Char.isDigit,Bool.and_eq_true,decide_eq_true_eq] at digit
      have low : 48 ≤ c.toNat := digit.1
      have high : c.toNat ≤ 57 := digit.2
      omega
  head := fixed_head places x
  valid := scans.valid
  decimal := fixed_isDecimal x
  read := scans.read

def scanned (lib : Numbers ℚ) (places : Nat) (values : List ℚ) : Value ℚ :=
  .array (values.map fun x => .number (lib.strtod (fixed places x)).1)

private theorem turns_scanned {lib : Numbers ℚ} {places levels : Nat} {values : List ℚ}
    (scans : ∀ x ∈ values, Scans lib (fixed places x)) (array : List (Value ℚ)) :
    Turns (parseItem (parseValue lib (levels + 1))) array (values.map (fixed places))
      (array ++ values.map fun x => .number (lib.strtod (fixed places x)).1) := by
  induction values generalizing array with
  | nil =>
    rw [List.map_nil,List.map_nil,List.append_nil]
    exact .done array
  | cons x values ih =>
    obtain ⟨first,rest⟩ := List.forall_mem_cons.mp scans
    have reads := fixed_reads first
    have later := ih rest (array ++ [.number (lib.strtod (fixed places x)).1])
    rw [List.append_assoc] at later
    refine .turn (starts_number reads.head) ?_ later
    intro rest ends
    rw [parseItem,parseValue_number reads.head,parseNumberValue_reads reads ends]
    rfl

private theorem parse_arrayText {lib : Numbers ℚ} {places : Nat} {values : List ℚ}
    (scans : ∀ x ∈ values, Scans lib (fixed places x)) :
    jsonParseString lib (arrayText places values) = some (scanned lib places values) := by
  have blank : ∀ c ∈ [' '], Libc.isspace c = true := List.all_eq_true.mp rfl
  have parsed : parseValue lib (maxNesting + 1) (arrayText places values) = some (scanned lib places values,[]) := by
    change parseArrayValue (parseValue lib maxNesting) ([' '] ++ (listed (values.map (fixed places)) ++ " ]".toList)) = _
    have turns := @turns_scanned lib places (maxNesting - 1) values scans []
    cases values with
    | nil => rfl
    | cons x values =>
      have starts : Starts (fixed places x) := starts_number (fixed_head places x)
      rw [List.map_cons,listed,List.append_assoc,parseArrayValue_starts _ blank (starts.append _)]
      exact parseElements_enclosed (List.forall_mem_nil _ : ∀ c ∈ ([] : Text), _) blank (Or.inl rfl) turns []
  have marked : byteOrderMark.isPrefixOf (arrayText places values) = false := rfl
  rw [jsonParseString,marked]
  simp only [Bool.false_eq_true,if_false]
  rw [parsed,Option.map_some]

/-! The payload. -/

/-- The message is one line of UTF-8, and is parsed as an object that holds under every name
what was set last. -/
def Received (lib : Numbers ℚ) (fields : Settings ℚ) (message : Option Text) : Prop :=
  ∃ s object, message = some s ∧ isValidUtf8 s = true ∧ (∀ c ∈ s, 0x20 ≤ c.toNat) ∧
    jsonParseString lib s = some (.object object) ∧ (names object).Nodup ∧
    ∀ name, jsonObjectGetnValue object name = lastSet name fields

/-- What has to hold of a setting for its value to be received. -/
structure Sendable (lib : Numbers ℚ) (name : Text) (v : Value ℚ) : Prop where
  terminated : nul ∉ name
  named : Valid name
  readable : Readable lib v
  strings : ValidStrings v
  shallow : height v < maxNesting

private theorem payload_received {lib : Numbers ℚ} {settings : Settings ℚ}
    (sendable : ∀ s ∈ settings, ∀ v, s.2 = some v → Sendable lib s.1 v) (m : Memory) :
    Received lib settings (payload lib settings m) := by
  obtain ⟨distinct,get⟩ := setAll_holds ([] : Members ℚ) settings List.nodup_nil
  have each : ∀ m ∈ setAll [] settings, Sendable lib m.1 m.2 := setAll_mem (List.forall_mem_nil _) sendable
  have keys : ∀ name ∈ names (setAll [] settings), nul ∉ name ∧ Valid name := by
    intro name member
    obtain ⟨m,held,rfl⟩ := List.mem_map.mp member
    exact ⟨(each m held).terminated,(each m held).named⟩
  have readable : Readable lib (.object (setAll [] settings)) :=
    all_object.mpr ⟨⟨distinct,fun name member => (keys name member).1⟩,fun m held => (each m held).readable⟩
  have strings : ValidStrings (.object (setAll [] settings)) :=
    all_object.mpr ⟨fun name member => (keys name member).2,fun m held => (each m held).strings⟩
  have shallow : height (.object (setAll [] settings)) ≤ maxNesting :=
    heightMembers_le.mpr fun m held => (each m held).shallow
  refine ⟨_,_,serializeToString_text readable m,?_,text_compact readable 0,?_,distinct,fun name => ?_⟩
  · exact (isValidUtf8_iff _).mpr (text_valid compact readable strings 0)
  · rw [parseString_text _ readable,if_pos shallow]
  · rw [get]
    exact Option.or_none

/-- The names that the program gives are of this kind. -/
def plainName (name : Text) : Bool := name.all fun c => 0 < c.toNat && c.toNat < 0x80

private theorem maxNesting_pos : 0 < maxNesting := by decide

private theorem sendable_name {lib : Numbers ℚ} {name : Text} {v : Value ℚ} (plain : plainName name = true)
    (readable : Readable lib v) (strings : ValidStrings v) (shallow : height v < maxNesting) : Sendable lib name v where
  terminated member := by simpa [nul] using List.all_eq_true.mp plain nul member
  named := valid_ascii fun c member => by
    have bounds := List.all_eq_true.mp plain c member
    simp only [Bool.and_eq_true,decide_eq_true_eq] at bounds
    exact bounds.2
  readable := readable
  strings := strings
  shallow := shallow

def Printed (lib : Numbers ℚ) (x : ℚ) : Prop := Reads lib (lib.print x) x

/-- A setting that is sendable under the program's own name. -/
def Sends (lib : Numbers ℚ) (s : Text × Option (Value ℚ)) : Prop := ∀ v, s.2 = some v → Sendable lib s.1 v

private theorem sends_string {lib : Numbers ℚ} {name : String} (plain : plainName name.toList = true)
    (s : Text) : Sends lib (stringSetting name s) := by
  intro v made
  simp only [stringSetting,jsonValueInitString] at made
  split_ifs at made with valid
  cases made
  exact sendable_name plain trivial ((isValidUtf8_iff s).mp valid) maxNesting_pos

private theorem sends_number {lib : Numbers ℚ} {name : String} (plain : plainName name.toList = true)
    {x : ℚ} (printed : Printed lib x) : Sends lib (name.toList,some (.number x)) := by
  intro v made
  cases made
  exact sendable_name plain printed trivial maxNesting_pos

private theorem sends_array {lib : Numbers ℚ} {name : String} (plain : plainName name.toList = true)
    {places : Nat} {values : List ℚ} (printed : ∀ x ∈ values, Printed lib (lib.strtod (fixed places x)).1) :
    Sends lib (name.toList,some (scanned lib places values)) := by
  intro v made
  cases made
  refine sendable_name plain (all_array.mpr ?_) (all_array.mpr ?_) ?_
  · intro v member
    obtain ⟨x,held,rfl⟩ := List.mem_map.mp member
    exact printed x held
  · intro v member
    obtain ⟨x,held,rfl⟩ := List.mem_map.mp member
    trivial
  · have low : heightItems (values.map fun x => Value.number (lib.strtod (fixed places x)).1) ≤ 1 := by
      rw [heightItems_le]
      intro v member
      obtain ⟨x,held,rfl⟩ := List.mem_map.mp member
      exact Nat.zero_lt_one
    exact Nat.lt_of_le_of_lt low (by decide)

/-! What a pack's message holds. -/

def numberField (name : String) (x : ℚ) : Text × Option (Value ℚ) := (name.toList,some (.number x))

def arrayField (lib : Numbers ℚ) (name : String) (places : Nat) (count : Int) (values : List ℚ) : Settings ℚ :=
  if count = 0 then [] else [(name.toList,some (scanned lib places values))]

def packFields (lib : Numbers ℚ) (timestamp : Option Text) (pp : SentPack) : Settings ℚ :=
  timeSetting timestamp ++
  [stringSetting "name" pp.name,
    stringSetting "uuid" pp.uuid,
    numberField "state" pp.info.state.toNat,
    numberField "errcode" pp.info.error.toInt,
    stringSetting "errmsg" pp.errmsg,
    numberField "capacity" pp.info.capacity,
    numberField "voltage" pp.info.voltage,
    numberField "current" pp.info.current] ++
  arrayField lib "temps" 1 pp.info.ntemps pp.temps ++
  arrayField lib "cellvolt" 3 pp.info.cells pp.cellvolt ++
  [numberField "cell_min" pp.cellMin,
    numberField "cell_max" pp.cellMax,
    numberField "cell_diff" pp.cellDiff,
    numberField "cell_avg" pp.cellAvg,
    stringSetting "states" (statesText pp.info.state packStates),
    stringSetting "balancebits" (JbdBalance.packSendMqttBits pp.info)]

/-- The numbers of a pack that the library has to print and read back. -/
def packNumbers (pp : SentPack) : List ℚ :=
  [pp.info.state.toNat,pp.info.error.toInt,pp.info.capacity,pp.info.voltage,pp.info.current,
    pp.cellMin,pp.cellMax,pp.cellDiff,pp.cellAvg]

structure PackPrints (lib : Numbers ℚ) (pp : SentPack) : Prop where
  numbers : ∀ x ∈ packNumbers pp, Printed lib x
  temps : ∀ x ∈ pp.temps, Scans lib (fixed 1 x) ∧ Printed lib (lib.strtod (fixed 1 x)).1
  cellvolt : ∀ x ∈ pp.cellvolt, Scans lib (fixed 3 x) ∧ Printed lib (lib.strtod (fixed 3 x)).1

private theorem numberSetting_field {lib : Numbers ℚ} (name : String) {x : ℚ} (printed : Printed lib x) :
    numberSetting lib name x = numberField name x := by
  have valid : lib.invalid x = false := Reads.valid printed
  simp [numberSetting,jsonValueInitNumber,valid,numberField]

private theorem arraySetting_field {lib : Numbers ℚ} (name : String) {places : Nat} (count : Int) {values : List ℚ}
    (scans : ∀ x ∈ values, Scans lib (fixed places x)) :
    arraySetting lib name places count values = arrayField lib name places count values := by
  rw [arraySetting,arrayField,parse_arrayText scans]

private theorem packSettings_fields {lib : Numbers ℚ} {pp : SentPack} (prints : PackPrints lib pp)
    (timestamp : Option Text) :
    packSettings lib timestamp pp = packFields lib timestamp pp := by
  have numbers := prints.numbers
  simp only [packNumbers,List.forall_mem_cons] at numbers
  obtain ⟨state,error,capacity,voltage,current,low,high,diff,avg,_⟩ := numbers
  rw [packSettings,packFields,arraySetting_field _ _ fun x member => (prints.temps x member).1,
    arraySetting_field _ _ fun x member => (prints.cellvolt x member).1]
  simp only [numberSetting_field _ state,numberSetting_field _ error,numberSetting_field _ capacity,
    numberSetting_field _ voltage,numberSetting_field _ current,numberSetting_field _ low,numberSetting_field _ high,
    numberSetting_field _ diff,numberSetting_field _ avg]

private theorem sends_time (lib : Numbers ℚ) (timestamp : Option Text) : ∀ s ∈ timeSetting timestamp, Sends lib s := by
  cases timestamp with
  | none => exact List.forall_mem_nil _
  | some t => exact List.forall_mem_singleton.mpr (sends_string (by decide) t)

private theorem sends_arrayField {lib : Numbers ℚ} {name : String} (plain : plainName name.toList = true) {places : Nat}
    (count : Int) {values : List ℚ} (printed : ∀ x ∈ values, Printed lib (lib.strtod (fixed places x)).1) :
    ∀ s ∈ arrayField lib name places count values, Sends lib s := by
  unfold arrayField
  split_ifs
  · exact List.forall_mem_nil _
  · exact List.forall_mem_singleton.mpr (sends_array plain printed)

private theorem payload_pack {lib : Numbers ℚ} {pp : SentPack} (prints : PackPrints lib pp) (timestamp : Option Text)
    (m : Memory) : Received lib (packFields lib timestamp pp) (payload lib (packSettings lib timestamp pp) m) := by
  have numbers := prints.numbers
  simp only [packNumbers,List.forall_mem_cons] at numbers
  obtain ⟨state,error,capacity,voltage,current,low,high,diff,avg,_⟩ := numbers
  rw [packSettings_fields prints]
  apply payload_received
  change ∀ s ∈ packFields lib timestamp pp, Sends lib s
  simp only [packFields,List.forall_mem_append,List.forall_mem_cons]
  refine ⟨⟨⟨⟨sends_time lib timestamp,?_⟩,?_⟩,?_⟩,?_⟩
  · exact ⟨sends_string (by decide) _,sends_string (by decide) _,sends_number (by decide) state,
      sends_number (by decide) error,sends_string (by decide) _,sends_number (by decide) capacity,
      sends_number (by decide) voltage,sends_number (by decide) current,List.forall_mem_nil _⟩
  · exact sends_arrayField (by decide) _ fun x member => (prints.temps x member).2
  · exact sends_arrayField (by decide) _ fun x member => (prints.cellvolt x member).2
  · exact ⟨sends_number (by decide) low,sends_number (by decide) high,sends_number (by decide) diff,
      sends_number (by decide) avg,sends_string (by decide) _,sends_string (by decide) _,List.forall_mem_nil _⟩

/-! The buffer that the texts are put together in. -/

private theorem listed_length {parts : List Text} {size : Nat} (each : ∀ part ∈ parts, part.length ≤ size) :
    (listed parts).length ≤ parts.length * (size + 1) := by
  cases parts with
  | nil => exact Nat.zero_le _
  | cons part parts =>
    obtain ⟨first,rest⟩ := List.forall_mem_cons.mp each
    have behind : (parts.flatMap (',' :: ·)).length ≤ parts.length * (size + 1) := by
      clear each
      induction parts with
      | nil => exact Nat.zero_le _
      | cons second parts ih =>
        obtain ⟨second,rest⟩ := List.forall_mem_cons.mp rest
        have shorter := ih rest
        rw [List.flatMap_cons,List.length_append,List.length_cons,List.length_cons,Nat.succ_mul]
        omega
    rw [listed,List.length_append,List.length_cons,Nat.succ_mul]
    omega

private theorem arrayText_length {places size : Nat} {values : List ℚ}
    (each : ∀ x ∈ values, (fixed places x).length ≤ size) :
    (arrayText places values).length ≤ values.length * (size + 1) + 4 := by
  have parts : ∀ part ∈ values.map (fixed places), part.length ≤ size := by
    intro part member
    obtain ⟨x,held,rfl⟩ := List.mem_map.mp member
    exact each x held
  have bound := listed_length parts
  rw [List.length_map] at bound
  simp only [arrayText,List.length_append,String.reduceToList,List.length_cons,List.length_nil]
  omega

private theorem bitText_length (bits : BitVec 32) (left : Nat) (mask : BitVec 64) :
    (JbdBalance.bitText bits left mask).length = left := by
  induction left generalizing mask with
  | zero => rfl
  | succ left ih => rw [JbdBalance.bitText,List.length_cons,ih]

private theorem statesText_length (state : BitVec 16) : (statesText state packStates).length < tempSize := by
  have each : ∀ part ∈ (packStates.filter fun s => check state s.1).map fun s => s.2.toList, part.length ≤ 11 := by
    intro part member
    obtain ⟨s,held,rfl⟩ := List.mem_map.mp member
    have among := List.mem_of_mem_filter held
    simp only [packStates,List.mem_cons,List.not_mem_nil,or_false] at among
    rcases among with rfl | rfl | rfl <;> decide
  have bound := listed_length each
  have fewer : (packStates.filter fun s => check state s.1).length ≤ 3 := List.length_filter_le _ packStates
  rw [List.length_map] at bound
  have small : tempSize = 256 := rfl
  unfold statesText
  omega

/-- Even a topic that runs on through the arrays behind it leaves room for a name. -/
private theorem packTopic_length (conf : Conf) {pp : SentPack} (name : pp.name.length < 32) :
    (packTopic conf pp).length < tempSize := by
  have topic : conf.mqttTopic.length ≤ mqttSize - 64 := cstr_length _ _ _
  have size : tempSize = 256 ∧ mqttSize = 257 := ⟨rfl,rfl⟩
  rw [packTopic,List.length_append,List.length_cons]
  omega

/-- What there is room for: counts inside their arrays, a name and a time that fit their own
arrays, cell voltages of six characters and temperatures of less than thirty. -/
structure Roomy (timestamp : Option Text) (pp : SentPack) : Prop where
  fits : Fits pp.info
  name : pp.name.length < 32
  time : ∀ t ∈ timestamp, t.length < 32
  volts : ∀ v ∈ pp.cellvolt, -9.9995 < v ∧ v < 99.9995
  temps : ∀ t ∈ pp.temps, |t| < 10 ^ 26 - 1

section Room

variable {timestamp : Option Text} {pp : SentPack}

private theorem temps_count (fits : Fits pp.info) : (pp.temps.length : Int) = pp.info.ntemps := by
  obtain ⟨_,low,high⟩ := fits
  have most : pp.info.ntemps ≤ 8 := high
  have size : pp.info.temps.toList.length = 8 := Vector.length_toList
  rw [SentPack.temps,List.length_take,size]
  omega

private theorem cellvolt_count (fits : Fits pp.info) : (pp.cellvolt.length : Int) = pp.info.cells := by
  obtain ⟨⟨low,high⟩,_⟩ := fits
  have most : pp.info.cells ≤ 32 := high
  have size : pp.info.cellvolt.toList.length = 32 := Vector.length_toList
  rw [SentPack.cellvolt,List.length_take,size]
  omega

private theorem tempsText_length (roomy : Roomy timestamp pp) : (arrayText 1 pp.temps).length < tempSize := by
  have each : ∀ t ∈ pp.temps, (fixed 1 t).length ≤ 29 := by
    intro t member
    have bound := @fixed_length 1 26 t (by decide) (by linarith [roomy.temps t member])
    split_ifs at bound <;> omega
  have bound := arrayText_length each
  have count := temps_count roomy.fits
  have most : pp.info.ntemps ≤ 8 := roomy.fits.ntemps.2
  have size : tempSize = 256 := rfl
  omega

private theorem cellvoltText_length (roomy : Roomy timestamp pp) : (arrayText 3 pp.cellvolt).length < tempSize := by
  have each : ∀ v ∈ pp.cellvolt, (fixed 3 v).length ≤ 6 := by
    intro v member
    obtain ⟨low,high⟩ := roomy.volts v member
    by_cases negative : v < 0
    · have small : |v| * 10 ^ 3 < 10 ^ (3 + 1) - 1 / 2 := by
        rw [abs_of_neg negative]
        linarith
      have bound := fixed_length (by decide) small
      rw [if_pos negative] at bound
      omega
    · have small : |v| * 10 ^ 3 < 10 ^ (3 + 2) - 1 / 2 := by
        rw [abs_of_nonneg (le_of_not_gt negative)]
        linarith
      have bound := fixed_length (by decide) small
      rw [if_neg negative] at bound
      omega
  have bound := arrayText_length each
  have count := cellvolt_count roomy.fits
  have most : pp.info.cells ≤ 32 := roomy.fits.cells.2
  have size : tempSize = 256 := rfl
  omega

theorem bits_length (fits : Fits pp.info) : (JbdBalance.packSendMqttBits pp.info).length < tempSize := by
  have most : pp.info.cells ≤ 32 := fits.cells.2
  have size : tempSize = 256 := rfl
  rw [JbdBalance.packSendMqttBits,bitText_length]
  omega

private theorem tempTexts_fit (roomy : Roomy timestamp pp) (conf : Conf) :
    ∀ s ∈ tempTexts conf timestamp pp, s.length < tempSize := by
  simp only [tempTexts,List.forall_mem_append,List.forall_mem_cons]
  refine ⟨⟨⟨?_,?_⟩,?_⟩,statesText_length _,bits_length roomy.fits,packTopic_length conf roomy.name,
    List.forall_mem_nil _⟩
  · intro t member
    exact (roomy.time t (Option.mem_toList.mp member)).trans (by decide)
  · split_ifs
    · exact List.forall_mem_nil _
    · exact List.forall_mem_singleton.mpr (tempsText_length roomy)
  · split_ifs
    · exact List.forall_mem_nil _
    · exact List.forall_mem_singleton.mpr (cellvoltText_length roomy)

private theorem packSendMqtt_roomy (lib : Numbers ℚ) (roomy : Roomy timestamp pp) (conf : Conf) (m : Memory) :
    packSendMqtt lib conf timestamp m pp =
      some ⟨conf.mqttBroker,pp.name,payload lib (packSettings lib timestamp pp) m,packTopic conf pp⟩ :=
  if_pos ⟨⟨roomy.fits.ntemps.2,roomy.fits.cells.2⟩,tempTexts_fit roomy conf⟩

/-- Everything that is put together in the buffer fits, so that the message is sent. -/
theorem temp_fits (lib : Numbers ℚ) (roomy : Roomy timestamp pp) (conf : Conf) (m : Memory) :
    (∀ s ∈ tempTexts conf timestamp pp, s.length < tempSize) ∧ (packSendMqtt lib conf timestamp m pp).isSome :=
  ⟨tempTexts_fit roomy conf,by rw [packSendMqtt_roomy lib roomy]; rfl⟩

/-- What a pack sends is received: its numbers as they are, its texts where they are UTF-8,
and its temperatures and cell voltages as they read with so many places. -/
theorem pack_received {lib : Numbers ℚ} (roomy : Roomy timestamp pp) (prints : PackPrints lib pp) (conf : Conf)
    (m : Memory) : ∃ sent, packSendMqtt lib conf timestamp m pp = some sent ∧
      Received lib (packFields lib timestamp pp) sent.message :=
  ⟨_,packSendMqtt_roomy lib roomy conf m,payload_pack prints timestamp m⟩

end Room

/-! Over a library that prints whole numbers and reads decimals. -/

private theorem scans_decimals {s : Text} (chars : s.all numberChar = true) : Scans decimals s where
  valid := rfl
  read rest ends := by
    have alone := strtod_decimals chars ends_nil
    rw [List.append_nil] at alone
    rw [strtod_decimals chars ends,alone]

def samplePack : SentPack where
  name := "pack_01".toList
  uuid := []
  errmsg := [byte 0xFF]
  info := { blankPack with capacity := 280, voltage := 7, ntemps := 1, temps := Vector.replicate maxTemps 25, cells := 2,
                           cellvolt := Vector.replicate maxCells 3 }
  cellMin := 3
  cellMax := 3
  cellDiff := 0
  cellAvg := 3

private theorem samplePack_prints : PackPrints decimals samplePack := by
  have zero : Printed decimals 0 := reads_decimals rfl rfl rfl (by decide +kernel)
  have three : Printed decimals 3 := reads_decimals rfl rfl rfl (by decide +kernel)
  have seven : Printed decimals 7 := reads_decimals rfl rfl rfl (by decide +kernel)
  have warm : Printed decimals 25 := reads_decimals rfl rfl rfl (by decide +kernel)
  have full : Printed decimals 280 := reads_decimals rfl rfl rfl (by decide +kernel)
  have read : (decimals.strtod (fixed 1 25)).1 = 25 := by decide +kernel
  have read' : (decimals.strtod (fixed 3 3)).1 = 3 := by decide +kernel
  constructor
  · simp only [packNumbers,List.forall_mem_cons]
    exact ⟨zero,zero,full,seven,zero,three,three,zero,three,List.forall_mem_nil _⟩
  · have one : samplePack.temps = [25] := rfl
    rw [one,List.forall_mem_singleton,read]
    exact ⟨scans_decimals (by decide +kernel),warm⟩
  · have two : samplePack.cellvolt = [3,3] := rfl
    rw [two,List.forall_mem_cons,List.forall_mem_singleton,read']
    exact ⟨⟨scans_decimals (by decide +kernel),three⟩,scans_decimals (by decide +kernel),three⟩

private theorem samplePack_roomy (timestamp : Option Text) (time : ∀ t ∈ timestamp, t.length < 32) :
    Roomy timestamp samplePack := by
  have temps : samplePack.temps = [25] := rfl
  have volts : samplePack.cellvolt = [3,3] := rfl
  refine ⟨⟨⟨by decide,by decide⟩,by decide,by decide⟩,by decide,time,?_,?_⟩
  · rw [volts]
    norm_num
  · rw [temps]
    norm_num

theorem temp_fits_sample : (∀ s ∈ tempTexts {} none samplePack, s.length < tempSize) ∧
    (packSendMqtt decimals {} none (fun _ => nul) samplePack).isSome :=
  temp_fits decimals (samplePack_roomy none (by simp)) _ _

theorem pack_received_sample : ∃ sent,
    packSendMqtt decimals {} (some "2021-06-01 12:00:00".toList) (fun _ => nul) samplePack = some sent ∧
      Received decimals (packFields decimals (some "2021-06-01 12:00:00".toList) samplePack) sent.message :=
  pack_received (samplePack_roomy _ (by simp)) samplePack_prints _ _

/-! What becomes of the numbers of an array. -/

/-- As many numbers, each within half a unit of the last place, and what reading it adds. -/
def Near (ε : ℚ) (places : Nat) : (sent read : List ℚ) → Prop :=
  List.Forall₂ fun x y => |y - x| ≤ 1 / (2 * 10 ^ places) + ε * (|x| + 1 / (2 * 10 ^ places))

/-- The library reads the printed numbers up to a relative error, as a `double` has to. -/
def Rounds (lib : Numbers ℚ) (ε : ℚ) (places : Nat) (values : List ℚ) : Prop :=
  ∀ x ∈ values, |(lib.strtod (fixed places x)).1 - Libc.atof (fixed places x)| ≤ ε * |Libc.atof (fixed places x)|

private theorem near_scanned {lib : Numbers ℚ} {ε : ℚ} (positive : 0 ≤ ε) {places : Nat} {values : List ℚ}
    (rounds : Rounds lib ε places values) :
    Near ε places values (values.map fun x => (lib.strtod (fixed places x)).1) := by
  rw [Near,List.forall₂_map_right_iff,List.forall₂_same]
  intro x member
  have printed := fixed_near places x
  have read := rounds x member
  have size : |Libc.atof (fixed places x)| ≤ |x| + 1 / (2 * 10 ^ places) := by
    have apart := abs_sub_abs_le_abs_sub (Libc.atof (fixed places x)) x
    linarith
  calc |(lib.strtod (fixed places x)).1 - x|
      ≤ |(lib.strtod (fixed places x)).1 - Libc.atof (fixed places x)| + |Libc.atof (fixed places x) - x| :=
        abs_sub_le _ _ _
    _ ≤ ε * (|x| + 1 / (2 * 10 ^ places)) + 1 / (2 * 10 ^ places) :=
        add_le_add (read.trans (mul_le_mul_of_nonneg_left size positive)) printed
    _ = 1 / (2 * 10 ^ places) + ε * (|x| + 1 / (2 * 10 ^ places)) := add_comm _ _

private theorem scanned_array (lib : Numbers ℚ) (places : Nat) (values : List ℚ) : scanned lib places values =
    .array ((values.map fun x => (lib.strtod (fixed places x)).1).map .number) := by
  rw [List.map_map]
  rfl

private theorem lastSet_append (name : Text) (first second : Settings ℚ) :
    lastSet name (first ++ second) = (lastSet name second).or (lastSet name first) := by
  induction first with
  | nil => rw [List.nil_append,lastSet,Option.or_none]
  | cons s first ih =>
    obtain ⟨name',value⟩ := s
    rw [List.cons_append,lastSet,lastSet,ih,Option.or_assoc]

private theorem lastSet_absent {name : Text} {settings : Settings ℚ} (absent : name ∉ settings.map Prod.fst) :
    lastSet name settings = none := by
  induction settings with
  | nil => rfl
  | cons s settings ih =>
    obtain ⟨name',value⟩ := s
    rw [List.map_cons,List.mem_cons,not_or] at absent
    obtain ⟨first,rest⟩ := absent
    rw [lastSet,ih rest,if_neg first,Option.or_none]

private theorem lastSet_arrayField (lib : Numbers ℚ) (name : Text) (name' : String) (places : Nat) (count : Int)
    (values : List ℚ) : lastSet name (arrayField lib name' places count values) =
      if count ≠ 0 ∧ name = name'.toList then some (scanned lib places values) else none := by
  unfold arrayField
  split_ifs <;> simp_all [lastSet]

/-- The fields behind the arrays have other names. -/
private theorem lastSet_packFields (lib : Numbers ℚ) (timestamp : Option Text) (pp : SentPack) {name : Text}
    (other : name ∉ ["cell_min".toList,"cell_max".toList,"cell_diff".toList,"cell_avg".toList,"states".toList,
      "balancebits".toList]) : ∃ before, lastSet name (packFields lib timestamp pp) =
      (if pp.info.cells ≠ 0 ∧ name = "cellvolt".toList then some (scanned lib 3 pp.cellvolt) else none).or
        ((if pp.info.ntemps ≠ 0 ∧ name = "temps".toList then some (scanned lib 1 pp.temps) else none).or before) := by
  have tail : lastSet name [numberField "cell_min" pp.cellMin,numberField "cell_max" pp.cellMax,
      numberField "cell_diff" pp.cellDiff,numberField "cell_avg" pp.cellAvg,
      stringSetting "states" (statesText pp.info.state packStates),
      stringSetting "balancebits" (JbdBalance.packSendMqttBits pp.info)] = none := lastSet_absent other
  rw [packFields,lastSet_append,tail,Option.none_or,lastSet_append,lastSet_append,lastSet_arrayField,lastSet_arrayField]
  exact ⟨_,rfl⟩

/-- The temperatures are received up to a twentieth and the cell voltages up to half a
thousandth, each of them and in their order. -/
theorem pack_resolution {lib : Numbers ℚ} {timestamp : Option Text} {pp : SentPack} (roomy : Roomy timestamp pp)
    (prints : PackPrints lib pp) {ε : ℚ} (positive : 0 ≤ ε) (temps : Rounds lib ε 1 pp.temps)
    (volts : Rounds lib ε 3 pp.cellvolt) (conf : Conf) (m : Memory) :
    ∃ sent s object, packSendMqtt lib conf timestamp m pp = some sent ∧ sent.message = some s ∧
      jsonParseString lib s = some (.object object) ∧
      (pp.info.ntemps ≠ 0 → ∃ read, jsonObjectGetnValue object "temps".toList = some (.array (read.map .number)) ∧
        (read.length : Int) = pp.info.ntemps ∧ Near ε 1 pp.temps read) ∧
      (pp.info.cells ≠ 0 → ∃ read, jsonObjectGetnValue object "cellvolt".toList = some (.array (read.map .number)) ∧
        (read.length : Int) = pp.info.cells ∧ Near ε 3 pp.cellvolt read) := by
  obtain ⟨s,object,message,_,_,parsed,_,get⟩ := payload_pack prints timestamp m
  refine ⟨_,s,object,packSendMqtt_roomy lib roomy conf m,message,parsed,fun some => ?_,fun some => ?_⟩
  · refine ⟨_,?_,?_,near_scanned positive temps⟩
    · obtain ⟨before,found⟩ := lastSet_packFields lib timestamp pp (by decide : "temps".toList ∉ _)
      rw [get,← scanned_array,found,if_neg (fun both => absurd both.2 (by decide)),if_pos ⟨some,rfl⟩]
      rfl
    · rw [List.length_map,temps_count roomy.fits]
  · refine ⟨_,?_,?_,near_scanned positive volts⟩
    · obtain ⟨before,found⟩ := lastSet_packFields lib timestamp pp (by decide : "cellvolt".toList ∉ _)
      rw [get,← scanned_array,found,if_pos ⟨some,rfl⟩]
      rfl
    · rw [List.length_map,cellvolt_count roomy.fits]

private theorem decimals_rounds (places : Nat) (values : List ℚ) : Rounds decimals 0 places values := by
  intro x _
  have chars : (fixed places x).all numberChar = true := by
    rw [List.all_eq_true]
    intro c member
    rcases fixed_chars member with rfl | rfl | digit
    · rfl
    · rfl
    · simp [numberChar,digit]
  have alone := strtod_decimals chars ends_nil
  rw [List.append_nil] at alone
  simp [alone]

theorem pack_resolution_sample : ∃ sent s object,
    packSendMqtt decimals {} none (fun _ => nul) samplePack = some sent ∧ sent.message = some s ∧
      jsonParseString decimals s = some (.object object) ∧
      (samplePack.info.ntemps ≠ 0 → ∃ read,
        jsonObjectGetnValue object "temps".toList = some (.array (read.map .number)) ∧
          (read.length : Int) = samplePack.info.ntemps ∧ Near 0 1 samplePack.temps read) ∧
      (samplePack.info.cells ≠ 0 → ∃ read,
        jsonObjectGetnValue object "cellvolt".toList = some (.array (read.map .number)) ∧
          (read.length : Int) = samplePack.info.cells ∧ Near 0 3 samplePack.cellvolt read) :=
  pack_resolution (samplePack_roomy none (by simp)) samplePack_prints le_rfl (decimals_rounds 1 _)
    (decimals_rounds 3 _) _ _

/-! What an inverter's message holds. The site power is set twice. -/

def inverterFields (timestamp : Option Text) (inv : SentInverter) : Settings ℚ :=
  timeSetting timestamp ++
  [stringSetting "name" inv.name,
    stringSetting "uuid" inv.uuid,
    numberField "capacity" inv.soc,
    numberField "errcode" inv.error.toInt,
    stringSetting "errmsg" inv.errmsg,
    numberField "battery_voltage" inv.batteryVoltage,
    numberField "battery_current" inv.batteryAmps,
    numberField "battery_power" inv.batteryPower,
    numberField "battery_temp" inv.batteryTemp,
    numberField "grid_power" inv.gridPower,
    numberField "load_power" inv.loadPower,
    numberField "site_power" inv.sitePower,
    stringSetting "states" (statesText inv.state inverterStates)]

def inverterNumbers (inv : SentInverter) : List ℚ :=
  [inv.soc,inv.error.toInt,inv.batteryVoltage,inv.batteryAmps,inv.batteryPower,inv.batteryTemp,inv.gridPower,
    inv.loadPower,inv.sitePower]

private theorem lastSet_twice (name : Text) (s : Text × Option (Value ℚ)) (settings : Settings ℚ) :
    lastSet name (s :: s :: settings) = lastSet name (s :: settings) := by
  obtain ⟨name',value⟩ := s
  simp only [lastSet,Option.or_assoc,Option.or_self]

private theorem lastSet_cons_congr {name : Text} {first second : Settings ℚ}
    (same : lastSet name first = lastSet name second)
    (s : Text × Option (Value ℚ)) : lastSet name (s :: first) = lastSet name (s :: second) := by
  rw [lastSet,lastSet,same]

theorem inverter_received {lib : Numbers ℚ} {inv : SentInverter} (prints : ∀ x ∈ inverterNumbers inv, Printed lib x)
    (conf : Conf) (timestamp : Option Text) (m : Memory) :
    Received lib (inverterFields timestamp inv) (inverterMqttSend lib conf timestamp m inv).message := by
  simp only [inverterNumbers,List.forall_mem_cons] at prints
  obtain ⟨soc,error,voltage,amps,power,temp,grid,load,site,_⟩ := prints
  have received : Received lib (inverterSettings lib timestamp inv)
      (payload lib (inverterSettings lib timestamp inv) m) := payload_received
    (by
      change ∀ s ∈ inverterSettings lib timestamp inv, Sends lib s
      simp only [inverterSettings,List.forall_mem_append,List.forall_mem_cons,numberSetting_field _ soc,
        numberSetting_field _ error,numberSetting_field _ voltage,numberSetting_field _ amps,
        numberSetting_field _ power,numberSetting_field _ temp,numberSetting_field _ grid,
        numberSetting_field _ load,numberSetting_field _ site]
      exact ⟨sends_time lib timestamp,sends_string (by decide) _,sends_string (by decide) _,
        sends_number (by decide) soc,sends_number (by decide) error,sends_string (by decide) _,
        sends_number (by decide) voltage,sends_number (by decide) amps,sends_number (by decide) power,
        sends_number (by decide) temp,sends_number (by decide) grid,sends_number (by decide) load,
        sends_number (by decide) site,sends_number (by decide) site,sends_string (by decide) _,List.forall_mem_nil _⟩) m
  obtain ⟨s,object,sent,valid,line,parsed,distinct,get⟩ := received
  refine ⟨s,object,sent,valid,line,parsed,distinct,fun name => ?_⟩
  rw [get]
  simp only [inverterSettings,inverterFields,lastSet_append,numberSetting_field _ soc,numberSetting_field _ error,
    numberSetting_field _ voltage,numberSetting_field _ amps,numberSetting_field _ power,numberSetting_field _ temp,
    numberSetting_field _ grid,numberSetting_field _ load,numberSetting_field _ site]
  congr 1
  iterate 11 apply lastSet_cons_congr
  exact lastSet_twice name _ _

def sampleInverter : SentInverter where
  name := "si".toList
  uuid := []
  soc := 12
  error := 0
  errmsg := ['"']
  batteryVoltage := 52
  batteryAmps := 0
  batteryPower := 0
  batteryTemp := 12
  gridPower := 0
  loadPower := 52
  sitePower := 0
  state := 1

theorem inverter_received_sample : Received decimals (inverterFields none sampleInverter)
    (inverterMqttSend decimals {} none (fun _ => nul) sampleInverter).message := by
  have zero : Printed decimals 0 := reads_decimals rfl rfl rfl (by decide +kernel)
  have twelve : Printed decimals 12 := reads_decimals rfl rfl rfl (by decide +kernel)
  have volts : Printed decimals 52 := reads_decimals rfl rfl rfl (by decide +kernel)
  apply inverter_received
  simp only [inverterNumbers,List.forall_mem_cons]
  exact ⟨twelve,zero,volts,zero,zero,twelve,zero,volts,zero,List.forall_mem_nil _⟩

end Mybmm.Telemetry
