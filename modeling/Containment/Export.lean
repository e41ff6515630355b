/-
Module: Containment.Export
Purpose: Containers, members, index entries, reports and summaries as JSON, for programs that read them.
  Fields come in the order in which the types declare them.
Main exports: Snapshot.toJson, IndexEntry.toJson, MemberPage.toJson, Event.toJson,
  ConsistencyReport.toJson, RebuildSummary.toJson
-/
import Containment.Record.Basic
import Containment.Repository.Options
import Containment.Repository.Report
import Containment.Text.Json

namespace Containment

open Text Time

/-- The label of a kind of container. -/
def ContainerType.label : ContainerType → String
  | .basic => "Basic"
  | .direct => "Direct"
  | .indirect => "Indirect"

/-- The label of a kind of member. -/
def MemberType.label : MemberType → String
  | .resource => "Resource"
  | .container => "Container"
  | .binary => "Binary"

/-- The label of an order. -/
def SortOrder.label : SortOrder → String
  | .insertion => "Insertion"
  | .newestFirst => "NewestFirst"
  | .memberId => "MemberId"

/-- The kind of container with a label. -/
def ContainerType.ofLabel? (label : String) : Option ContainerType :=
  [.basic, .direct, .indirect].find? fun type => type.label == label

/-- The kind of member with a label. -/
def MemberType.ofLabel? (label : String) : Option MemberType :=
  [.resource, .container, .binary].find? fun type => type.label == label

/-- The order with a label. -/
def SortOrder.ofLabel? (label : String) : Option SortOrder :=
  [.insertion, .newestFirst, .memberId].find? fun sort => sort.label == label

/-- A kind of container by its label. -/
def ContainerType.toJson (type : ContainerType) : Json :=
  .str type.label

/-- A kind of member by its label. -/
def MemberType.toJson (type : MemberType) : Json :=
  .str type.label

/-- An instant as its text. -/
def instantJson (t : Instant) : Json :=
  .str t.toText

/-- Properties as an object. -/
def metadataJson (metadata : Metadata) : Json :=
  .obj (metadata.toList.map fun (key, value) => (key, .str value))

/-- A member. -/
def Member.toJson (m : Member) : Json :=
  .obj [("id", .str m.id), ("member_type", m.type.toJson), ("added_at", instantJson m.addedAt)]

/-- The lasting state of a container. -/
def Snapshot.toJson (s : Snapshot) : Json :=
  .obj
    [("id", .str s.id), ("parent_id", .str s.parentId), ("container_type", s.type.toJson),
      ("members", .ofList Member.toJson s.members), ("metadata", metadataJson s.metadata),
      ("created_at", instantJson s.createdAt), ("updated_at", instantJson s.updatedAt)]

/-- A record. -/
def Record.toJson (r : Record) : Json :=
  .obj [("revision", .ofNat r.revision), ("container", r.container.toJson)]

/-- A row of the index. -/
def IndexEntry.toJson (e : IndexEntry) : Json :=
  .obj
    [("container_id", .str e.containerId), ("member_id", .str e.memberId),
      ("member_type", e.type.toJson), ("inserted_at", instantJson e.insertedAt),
      ("seq", .ofNat e.seq)]

/-- A window of members. -/
def MemberPage.toJson (page : MemberPage) : Json :=
  .obj
    [("entries", .ofList IndexEntry.toJson page.entries), ("total", .ofNat page.total),
      ("offset", .ofNat page.offset), ("limit", .ofNat page.limit)]

/-- A report of a container. -/
def Event.toJson (e : Event) : Json :=
  .obj
    [("kind", .str e.kind.name), ("container_id", .str e.containerId),
      ("member_id", .ofOption .str e.memberId),
      ("member_type", .ofOption MemberType.toJson e.memberType),
      ("timestamp", instantJson e.timestamp), ("metadata", metadataJson e.metadata)]

/-- The tag of a finding and what belongs to it besides the container. -/
def Divergence.parts : Divergence → String × List (String × Json)
  | .missingPartition _ => ("missing_partition", [])
  | .orphanPartition _ => ("orphan_partition", [])
  | .countMismatch _ primary index =>
      ("count_mismatch", [("primary", .ofNat primary), ("index", .ofNat index)])
  | .missingRow _ member => ("missing_row", [("member", .str member)])
  | .extraRow _ member => ("extra_row", [("member", .str member)])
  | .typeMismatch _ member primary index =>
      ("type_mismatch",
        [("member", .str member), ("primary", primary.toJson), ("index", index.toJson)])
  | .orderMismatch _ => ("order_mismatch", [])

/-- A finding. -/
def Divergence.toJson (d : Divergence) : Json :=
  .obj ([("kind", .str d.parts.1), ("container", .str d.container)] ++ d.parts.2)

/-- The findings of a comparison. -/
def ConsistencyReport.toJson (report : ConsistencyReport) : Json :=
  .obj
    [("containers_checked", .ofNat report.containersChecked),
      ("members_checked", .ofNat report.membersChecked),
      ("divergences", .ofList Divergence.toJson report.divergences)]

/-- What a rebuild did. -/
def RebuildSummary.toJson (summary : RebuildSummary) : Json :=
  .obj
    [("partitions_rebuilt", .ofNat summary.partitionsRebuilt),
      ("rows_written", .ofNat summary.rowsWritten),
      ("orphans_dropped", .ofNat summary.orphansDropped)]

end Containment
