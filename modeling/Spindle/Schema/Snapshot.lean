import Spindle.Schema.Basic

/-!
# Snapshot schema

The published description of machine snapshots.
-/

namespace Spindle.Schema

open Json (Value)

def zero : Value := .ofInt 0

def filesystem : Definition where
  name := "Filesystem"
  description := "Filesystem placed on a disk or partition"
  body := .record [
    ⟨"fstype", some "Filesystem type (e.g. ext4, fat32, vmfs6)", none, .string⟩,
    ⟨"is_format_fstype", some "Whether the fstype is one that can be formatted and mounted",
      some (.boolean false), .boolean⟩,
    ⟨"mount_options", some "Mount options", some .null, .nullable .string⟩,
    ⟨"mount_point", some "Mount point; empty when unmounted", some (.string ""), .string⟩]

def partitionKind : Definition where
  name := "PartitionKind"
  description := "Literal type tag carried by partition records"
  body := .tags ["partition", "vmfs6"]

def partition : Definition where
  name := "Partition"
  description := "A partition of a disk"
  body := .record [
    ⟨"filesystem", none, some .null, .nullable (.named "Filesystem")⟩,
    ⟨"id", none, none, .integer .uint64⟩,
    ⟨"name", none, some (.string ""), .string⟩,
    ⟨"size", some "Size in bytes", none, .integer .uint64⟩,
    ⟨"tags", none, some (.array []), .list .string⟩,
    ⟨"type", none, none, .named "PartitionKind"⟩,
    ⟨"used_for", none, some (.string ""), .string⟩]

def parentType : Definition where
  name := "ParentType"
  description := "Type of the filesystem group a virtual disk is built from"
  body := .tagsOr ["lvm-vg", "bcache", "raid-0", "raid-1", "raid-5", "raid-6", "raid-10"]
    "Unknown" "Any group type not listed above; the disk reads as plain virtual"

def parent : Definition where
  name := "DiskParent"
  description := "Reference to the filesystem group a virtual disk belongs to"
  body := .record [
    ⟨"id", none, none, .integer .uint64⟩,
    ⟨"type", none, none, .named "ParentType"⟩,
    ⟨"uuid", none, some (.string ""), .string⟩]

def diskType : Definition where
  name := "DiskType"
  description := "Type of a top-level block device"
  body := .tags ["physical", "virtual", "lvm-vg", "cache-set", "iscsi"]

def disk : Definition where
  name := "Disk"
  description := "A top-level block device"
  body := .record [
    ⟨"available_size", some "Bytes not yet allocated to partitions or logical volumes",
      some zero, .integer .uint64⟩,
    ⟨"filesystem", none, some .null, .nullable (.named "Filesystem")⟩,
    ⟨"firmware_version", none, some (.string ""), .string⟩,
    ⟨"id", none, none, .integer .uint64⟩,
    ⟨"is_boot", none, some (.boolean false), .boolean⟩,
    ⟨"model", none, some (.string ""), .string⟩,
    ⟨"name", none, some (.string ""), .string⟩,
    ⟨"numa_node", some "NUMA node of a physical disk", some .null,
      .nullable (.integer .uint32)⟩,
    ⟨"numa_nodes", some "NUMA nodes spanned by a virtual disk or volume group", some .null,
      .nullable (.list (.integer .uint32))⟩,
    ⟨"parent", none, some .null, .nullable (.named "DiskParent")⟩,
    ⟨"partitions", none, some (.array []), .list (.named "Partition")⟩,
    ⟨"serial", none, some (.string ""), .string⟩,
    ⟨"size", some "Total size in bytes", none, .integer .uint64⟩,
    ⟨"tags", none, some (.array []), .list .string⟩,
    ⟨"test_status", some "Storage test result code", some .null, .nullable (.integer .int32)⟩,
    ⟨"type", none, none, .named "DiskType"⟩,
    ⟨"used_size", some "Bytes allocated to partitions or logical volumes", some zero,
      .integer .uint64⟩]

def supportedFilesystem : Definition where
  name := "SupportedFilesystem"
  description := "Filesystem type a machine's OS can format"
  body := .record [
    ⟨"key", none, none, .string⟩,
    ⟨"ui", none, none, .string⟩]

def machine : Definition where
  name := "Machine"
  description := "Storage-relevant part of a machine's details"
  body := .record [
    ⟨"disks", none, some (.array []), .list (.named "Disk")⟩,
    ⟨"hostname", none, some (.string ""), .string⟩,
    ⟨"osystem", none, some (.string ""), .string⟩,
    ⟨"status_code", none, none, .integer .uint32⟩,
    ⟨"supported_filesystems", none, some (.array []), .list (.named "SupportedFilesystem")⟩,
    ⟨"system_id", none, none, .string⟩]

def snapshot : Schema where
  root := machine
  definitions := [disk, parent, diskType, filesystem, parentType, partition, partitionKind,
    supportedFilesystem]

end Spindle.Schema
