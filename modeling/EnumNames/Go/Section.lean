import EnumNames.Descriptor
import EnumNames.Go.Syntax

/-! The Go text of a name table: constants with the packed names, and a method that finds the
name of a value in them. What the method returns is what `Descriptor.render` says. -/
namespace EnumNames.Go

/-- The constant with the names of a type. -/
def blobName (typeName : String) : String := "_" ++ typeName ++ "_name"

/-- The variable with the offsets of a type. -/
def offsetsName (typeName : String) : String := "_" ++ typeName ++ "_index"

/-- The variable with the map of a type. -/
def mapName (typeName : String) : String := "_" ++ typeName ++ "_map"

/-- The name of what belongs to one run among several. -/
def numbered (name : String) (run : Nat) : String := name ++ "_" ++ toString run

/-- The receiver of the method. -/
def receiver : Expr := .name "i"

/-- The offsets of a table. -/
def offsetsArray (table : NameTable) : Expr := .array table.width.bits table.offsets.toList

/-- The form of a value without a name, made from an expression for the value. -/
def fallback (descriptor : Descriptor) (value : Expr) : Expr :=
  let digits : Expr := match descriptor.signedness with
    | .signed => .applyWith "strconv.FormatInt" (.apply "int64" value) 10
    | .unsigned => .applyWith "strconv.FormatUint" (.apply "uint64" value) 10
  .wide .add (.wide .add (.verbatim (descriptor.typeName ++ "(")) digits) (.verbatim ")")

/-- The name at the place that the receiver holds. -/
def nameAtReceiver (blob offsets : String) : Expr :=
  .slice (.name blob) (.index (.name offsets) receiver)
    (.index (.name offsets) (.tight .add receiver (.int 1)))

/-- Makes the receiver count from the first value of a run. -/
def shift (descriptor : Descriptor) (run : Run) : List Simple :=
  if run.min = 0 then [] else [.decrease "i" (descriptor.signedness.read run.min)]

/-- One run: the receiver is shifted, tested and used as a place. -/
def oneRun (descriptor : Descriptor) (run : Run) (table : NameTable) : List Item :=
  let typeName := descriptor.typeName
  let blob := blobName typeName
  let offsets := offsetsName typeName
  let beyond : Expr :=
    .wide .atLeast receiver (.apply typeName (.tight .sub (.apply "len" (.name offsets)) (.int 1)))
  let outside : Expr := match descriptor.signedness with
    | .signed => .wide .or (.wide .less receiver (.int 0)) beyond
    | .unsigned => beyond
  let value : Expr :=
    if run.min = 0 then receiver
    else .wide .add receiver (.int (descriptor.signedness.read run.min))
  [.const blob (.string table.blob), .var offsets (offsetsArray table),
    .stringMethod typeName ((shift descriptor run).map .simple ++
      [.ifReturn outside (fallback descriptor value), .simple (.ret (nameAtReceiver blob offsets))])]

/-- The case of one run among several. A run of one member is its name alone. -/
def arm (descriptor : Descriptor) (run : Run) (place : Nat) : Arm :=
  let blob := numbered (blobName descriptor.typeName) place
  let offsets := numbered (offsetsName descriptor.typeName) place
  let min : Expr := .int (descriptor.signedness.read run.min)
  let atMostMax : Expr := .wide .atMost receiver (.int (descriptor.signedness.read run.max))
  if run.others.isEmpty then
    ⟨.wide .equal receiver min, [.ret (.name blob)]⟩
  else
    ⟨if run.min = 0 ∧ descriptor.signedness = .unsigned then atMostMax
      else .wide .and (.wide .atMost min receiver) atMostMax,
      shift descriptor run ++ [.ret (nameAtReceiver blob offsets)]⟩

/-- Several runs: the cases of a switch, in the order of the runs. -/
def multiRun (descriptor : Descriptor) (tables : List NameTable) : List Item :=
  let typeName := descriptor.typeName
  let blobs := tables.zipIdx.map fun (table, place) =>
    (numbered (blobName typeName) place, Expr.string table.blob)
  let offsets := (descriptor.runs.zip tables).zipIdx.filterMap fun ((run, table), place) =>
    if run.others.isEmpty then none
    else some (numbered (offsetsName typeName) place, offsetsArray table)
  [.consts blobs] ++ (if offsets.isEmpty then [] else [.vars offsets]) ++
    [.stringMethod typeName [.switch (descriptor.runs.zipIdx.map fun (run, place) =>
      arm descriptor run place) (fallback descriptor receiver)]]

/-- Many runs: a map from values to parts of the packed names, in ascending order. -/
def sparseMap (descriptor : Descriptor) (table : SpanTable) : List Item :=
  let typeName := descriptor.typeName
  let blob := blobName typeName
  let entries := (descriptor.runs.flatMap Run.records).filterMap fun record =>
    (table.span? record.value).map fun span =>
      (descriptor.signedness.read record.value,
        Expr.slice (.name blob) (.int span.start.toNat) (.int span.stop.toNat))
  [.const blob (.string table.blob), .mapVar (mapName typeName) typeName entries,
    .stringMethod typeName
      [.ifFound (mapName typeName) "i", .simple (.ret (fallback descriptor receiver))]]

/-- The section of a type, if its tables have the layout that its strategy asks for. -/
def section? (descriptor : Descriptor) : Option (List Item) :=
  match descriptor.strategy, descriptor.tables with
  | .oneRun, .perRun tables =>
    match descriptor.runs, tables with
    | run :: _, table :: _ => some (oneRun descriptor run table)
    | _, _ => none
  | .multiRun, .perRun tables => some (multiRun descriptor tables)
  | .sparseMap, .sparse table => some (sparseMap descriptor table)
  | _, _ => none

end EnumNames.Go
