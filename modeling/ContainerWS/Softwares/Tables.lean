import Mathlib.Data.List.Sort

/-! The tables of models/softwares.go and models/softwaresversion.go, as far as other code reads them. -/
namespace ContainerWS.Softwares

structure Software where
  id : String
  name : String
  registrySlug : String
  isActive : Bool
  deleted : Bool
  deriving DecidableEq, Repr

structure SoftwareVersion where
  id : String
  softwareID : String
  version : String
  isLatest : Bool
  createdAt : Nat
  deleted : Bool
  deriving DecidableEq, Repr

/- A row that a query for a software sees. -/
def SoftwareVersion.of (softwareID : String) (v : SoftwareVersion) : Bool := !v.deleted && v.softwareID == softwareID

/- Order("is_latest DESC, created_at DESC"). -/
def latestFirst (v w : SoftwareVersion) : Bool :=
  if v.isLatest = w.isLatest then w.createdAt ≤ v.createdAt else v.isLatest

def ordered (versions : List SoftwareVersion) (softwareID : String) : List SoftwareVersion :=
  (versions.filter (fun v => v.of softwareID)).mergeSort latestFirst

end ContainerWS.Softwares
