import Spindle.Device.Machine

/-!
# Labels

The kind of a device in words: as a label, and as a phrase inside a sentence. Acronyms keep their
case in both.
-/

namespace Spindle

namespace Disk

def label (d : Disk) : String :=
  match d.kind with
  | .physical => "Physical"
  | .volumeGroup => "Volume group"
  | .cacheSet => "Cache set"
  | .iscsi => "ISCSI"
  | .virtual =>
    match d.logicalKind with
    | some .logicalVolume => "Logical volume"
    | some (.raid level) => "RAID " ++ toString level.number
    | some .bcache => "Bcache"
    | some .plain | none => "Virtual"

def phrase (d : Disk) : String :=
  match d.kind with
  | .physical => "physical disk"
  | .volumeGroup => "volume group"
  | .cacheSet => "cache set"
  | .iscsi => "ISCSI"
  | .virtual =>
    match d.logicalKind with
    | some .logicalVolume => "logical volume"
    | some (.raid level) => "RAID " ++ toString level.number
    | some .bcache => "bcache"
    | some .plain | none => "virtual disk"

end Disk

namespace Partition

def label (p : Partition) : String :=
  match p.kind with
  | .partition => "Partition"
  | .vmfs6 => "VMFS6"

def phrase (p : Partition) : String :=
  match p.kind with
  | .partition => "partition"
  | .vmfs6 => "VMFS6"

end Partition

namespace Device

def noLabel : String := "Unknown"

def label : Device → String
  | disk d => d.label
  | partition p => p.label

def phrase : Device → String
  | disk d => d.phrase
  | partition p => p.phrase

end Device

end Spindle
