import ObjectBackend.Image.Label
import ObjectBackend.Target.Module

/-!
# Call sites

The places of a module where an exception can be pending, in the order of their numbers: how many
references are live there, and which classes are handled. The table of them is what an exception's
handler is found by.
-/

namespace ObjectBackend

open Target

/-- A place where an exception can be pending. A handler without class catches everything. -/
structure CallSite where
  liveReferences : Nat
  handled : List (Option String)
deriving DecidableEq

/-- A call site with the number that it is registered under. -/
structure RegisteredSite extends CallSite where
  id : Nat
deriving DecidableEq

/-- The call sites in the order of their numbers. -/
structure CallSites where
  registered : List RegisteredSite
  /-- Every call site stands at the place of its number. -/
  placed : registered.map (·.id) = List.range registered.length
deriving DecidableEq

namespace CallSites

/-- No call sites. -/
def empty : CallSites := { registered := [], placed := rfl }

/-- The call sites without their numbers. -/
def sites (s : CallSites) : List CallSite := s.registered.map (·.toCallSite)

/-- Register a call site under the next number. -/
def register (s : CallSites) (site : CallSite) : Nat × CallSites :=
  let id := s.sites.length
  (id,
    { registered := s.registered ++ [{ site with id }]
      placed := by simp [id, sites, s.placed, List.range_succ] })

/-- A call site is registered behind all others. -/
@[simp] theorem sites_register (s : CallSites) (site : CallSite) :
    (s.register site).2.sites = s.sites ++ [site] :=
  List.map_append

/-- The stored numbers are the places of the call sites. -/
theorem map_registered (s : CallSites) :
    s.registered.map (fun r => (r.toCallSite, r.id)) = s.sites.zipIdx := by
  have numbers : s.registered.map (·.id) = List.range' 0 s.sites.length := by
    rw [s.placed, List.range_eq_range', sites, List.length_map]
  rw [List.zipIdx_eq_zip_range', ← numbers, sites, List.zip_map']

/-- The stored numbers fit into 32 bits as long as there are no more call sites than such numbers.
-/
theorem toNat_id {s : CallSites} (few : s.sites.length ≤ UInt32.size) {r : RegisteredSite}
    (mem : r ∈ s.registered) : (UInt32.ofNat r.id).toNat = r.id := by
  have listed : r.id ∈ s.registered.map (·.id) := List.mem_map_of_mem mem
  rw [s.placed, List.mem_range] at listed
  rw [sites, List.length_map] at few
  exact UInt32.toNat_ofNat_of_lt' (Nat.lt_of_lt_of_le listed few)

/-- A handled class, as a reference to its metadata. -/
def handlerContents (className : Option String) : IrType × Constant :=
  Constant.ptr (className.elim .null fun name => .symbol (.metadata name))

/-- The handlers of a call site, if it has any. -/
def handlerEntries (site : CallSite) (id : Nat) : List (Entry Label) :=
  if site.handled.isEmpty then []
  else
    [.data (.handlers id) .privateReadOnly (.array site.handled.length .ptr)
      (.sequence (site.handled.map handlerContents))]

/-- The entry of a call site in the table. -/
def contents (site : CallSite) (id : Nat) : IrType × Constant :=
  let handlers := if site.handled.isEmpty then .null else .symbol (.handlers id)
  (.runtime .callSite,
    .record
      [Constant.i32 (.int site.liveReferences), Constant.i32 (.int site.handled.length),
        Constant.ptr handlers])

/-- The handlers of all call sites, the table and its length. -/
def entries (s : CallSites) : List (Entry Label) :=
  let count := s.registered.length
  s.registered.flatMap (fun r => handlerEntries r.toCallSite r.id)
    ++ [.data (.runtime .callSites) .readOnly (.array count (.runtime .callSite))
          (.sequence (s.registered.map fun r => contents r.toCallSite r.id)),
        .data (.runtime .callSiteCount) .readOnly .i32 (.value (.int count))]

/-- The entries in terms of the places of the call sites. -/
theorem entries_eq (s : CallSites) :
    s.entries =
      s.sites.zipIdx.flatMap (fun (site, id) => handlerEntries site id)
        ++ [.data (.runtime .callSites) .readOnly (.array s.sites.length (.runtime .callSite))
              (.sequence (s.sites.zipIdx.map fun (site, id) => contents site id)),
            .data (.runtime .callSiteCount) .readOnly .i32 (.value (.int s.sites.length))] := by
  rw [entries, ← map_registered, List.flatMap_map, List.map_map, sites, List.length_map]
  rfl

end CallSites

end ObjectBackend
