import GoSyntax.Text.Dump
import GoSyntax.Tree.Basic

/-!
# Dumps of trees

A dump of a tree shows each node with its fields and its location, a constant with its exact value, and a string constant byte by
byte.
-/

namespace GoSyntax

open Dump

/-- A line of a source. -/
def Location.dump (l : Location) : Dump := record "Location" [("path", text l.path.text), ("line", int l.line)]

/-- Something with its location. -/
def Dump.located (part : Dump) (loc : Location) : Dump := record "Located" [("node", part), ("loc", loc.dump)]

/-- A name with its location. -/
def Name.dump (n : Name) : Dump := located (Dump.text n.text) n.loc

/-- A rational in lowest terms. -/
def Constant.dumpRational (q : Rat) : Dump := record "Ratio" [("numer", Dump.int q.num), ("denom", Dump.int q.den)]

/-- A constant with its exact value. -/
def Constant.dump : Constant → Dump
  | .bool b => variant "Bool" [Dump.bool b]
  | .int i => variant "Int" [Dump.int i]
  | .rune value byteEscape => record "Rune" [("value", Dump.int value), ("byte_escape", Dump.bool byteEscape)]
  | .float q => variant "Float" [dumpRational q]
  | .complex re im => record "Complex" [("re", dumpRational re), ("im", dumpRational im)]
  | .string bytes => variant "String" [Dump.list (bytes.map fun b => Dump.int b.toNat)]
  | .error => word "Error"
  | .uninit => word "Uninit"

/-- A literal with its location. -/
def Literal.dump (l : Literal) : Dump := located l.value.dump l.loc

/-- A direction by its name. -/
def ChannelDirection.dump : ChannelDirection → Dump
  | both => word "Both"
  | send => word "Send"
  | receive => word "Recv"

/-- An import. -/
def ImportSpec.dump (s : ImportSpec) : Dump :=
  record "ImportSpec" [("name", optional (s.name.map Name.dump)), ("path", s.path.dump)]

/-- Names in a list. -/
def Dump.names (ns : List Name) : Dump := list (ns.map Name.dump)

mutual

/-- An expression with its location. -/
def Expr.dump : Expr → Dump
  | .bad loc => located (word "Bad") loc
  | .ident loc name => located (variant "Ident" [text name]) loc
  | .literal loc value => located (variant "Literal" [value.dump]) loc
  | .composite loc type elements =>
    located (record "CompositeLit" [("ty", dumpExpr? type), ("elements", list (dumpExprs elements))]) loc
  | .function loc sig body => located (record "FuncLit" [("ty", sig.dump), ("body", body.dump)]) loc
  | .paren loc inner => located (variant "Paren" [inner.dump]) loc
  | .selector loc operand field => located (record "Selector" [("operand", operand.dump), ("field", field.dump)]) loc
  | .assertion loc operand type => located (record "TypeAssert" [("operand", operand.dump), ("ty", dumpExpr? type)]) loc
  | .index loc operand subscript => located (record "Index" [("operand", operand.dump), ("index", subscript.dump)]) loc
  | .slice loc operand low high max three =>
    located (variant "Slice" [record "SliceExpr"
      [("operand", operand.dump), ("low", dumpExpr? low), ("high", dumpExpr? high), ("max", dumpExpr? max),
        ("three", bool three)]]) loc
  | .call loc callee args spread =>
    located (record "Call" [("func", callee.dump), ("args", list (dumpExprs args)), ("ellipsis", bool spread)]) loc
  | .star loc operand => located (variant "Star" [operand.dump]) loc
  | .unary loc op operand => located (record "Unary" [("op", word op.label), ("operand", operand.dump)]) loc
  | .binary loc op left right =>
    located (record "Binary" [("op", word op.label), ("lhs", left.dump), ("rhs", right.dump)]) loc
  | .keyValue loc key value => located (record "KeyValue" [("key", key.dump), ("value", value.dump)]) loc
  | .arrayType loc length elem => located (record "ArrayType" [("len", length.dump), ("elem", elem.dump)]) loc
  | .structType loc fields => located (variant "StructType" [list (dumpFields fields)]) loc
  | .functionType loc sig => located (variant "FuncType" [sig.dump]) loc
  | .interfaceType loc elems => located (variant "InterfaceType" [list (dumpElems elems)]) loc
  | .mapType loc key value => located (record "MapType" [("key", key.dump), ("value", value.dump)]) loc
  | .channelType loc direction elem => located (record "ChanType" [("dir", direction.dump), ("elem", elem.dump)]) loc
  | .variadicType loc elem => located (variant "Ellipsis" [elem.dump]) loc

/-- An expression that may be missing. -/
def dumpExpr? : Option Expr → Dump
  | some e => variant "Some" [e.dump]
  | none => word "None"

/-- Expressions. -/
def dumpExprs : List Expr → List Dump
  | [] => []
  | e :: es => e.dump :: dumpExprs es

/-- The length of an array type. -/
def ArrayLength.dump : ArrayLength → Dump
  | .slice => word "Slice"
  | .inferred => word "Ellipsis"
  | .fixed length => variant "Expr" [length.dump]

/-- A field with its location. -/
def Field.dump : Field → Dump
  | ⟨loc, fieldNames, type, tag⟩ =>
    located (record "Field"
      [("names", names fieldNames), ("ty", type.dump), ("tag", optional (tag.map Literal.dump))]) loc

/-- Fields. -/
def dumpFields : List Field → List Dump
  | [] => []
  | f :: fs => f.dump :: dumpFields fs

/-- A signature. -/
def Signature.dump : Signature → Dump
  | ⟨params, results⟩ =>
    record "FuncType" [("params", list (dumpFields params)), ("results", list (dumpFields results))]

/-- An element of an interface with its location. -/
def InterfaceElem.dump : InterfaceElem → Dump
  | .method loc name sig => located (record "Method" [("name", name.dump), ("ty", sig.dump)]) loc
  | .embedded loc type => located (variant "Embedded" [type.dump]) loc

/-- Elements of an interface. -/
def dumpElems : List InterfaceElem → List Dump
  | [] => []
  | e :: es => e.dump :: dumpElems es

/-- A block with its location. -/
def Block.dump : Block → Dump
  | ⟨loc, stmts⟩ => located (record "Block" [("stmts", list (dumpStmts stmts))]) loc

/-- A statement with its location. -/
def Stmt.dump : Stmt → Dump
  | .bad loc => located (word "Bad") loc
  | .declaration loc g => located (variant "Decl" [variant "Gen" [g.dump]]) loc
  | .empty loc => located (word "Empty") loc
  | .labeled loc label stmt => located (record "Labeled" [("label", label.dump), ("stmt", stmt.dump)]) loc
  | .expr loc e => located (variant "Expr" [e.dump]) loc
  | .send loc channel value => located (record "Send" [("chan", channel.dump), ("value", value.dump)]) loc
  | .incDec loc op operand => located (record "IncDec" [("operand", operand.dump), ("op", word op.label)]) loc
  | .assign loc op left right =>
    located (record "Assign"
      [("lhs", list (dumpExprs left)), ("op", word op.label), ("rhs", list (dumpExprs right))]) loc
  | .go loc call => located (variant "Go" [call.dump]) loc
  | .defer loc call => located (variant "Defer" [call.dump]) loc
  | .return loc values => located (variant "Return" [list (dumpExprs values)]) loc
  | .branch loc keyword label =>
    located (record "Branch" [("keyword", word keyword.label), ("label", optional (label.map Name.dump))]) loc
  | .block ⟨loc, stmts⟩ => located (variant "Block" [record "Block" [("stmts", list (dumpStmts stmts))]]) loc
  | .if loc init cond body otherwise =>
    located (variant "If" [record "IfStmt"
      [("init", dumpStmt? init), ("cond", cond.dump), ("then", body.dump), ("els", dumpStmt? otherwise)]]) loc
  | .switch loc init tag clauses =>
    located (variant "Switch" [record "SwitchStmt"
      [("init", dumpStmt? init), ("tag", dumpExpr? tag), ("clauses", list (dumpCases clauses))]]) loc
  | .typeSwitch loc init guard clauses =>
    located (variant "TypeSwitch" [record "TypeSwitchStmt"
      [("init", dumpStmt? init), ("guard", guard.dump), ("clauses", list (dumpCases clauses))]]) loc
  | .select loc clauses => located (variant "Select" [list (dumpComms clauses)]) loc
  | .for loc init cond post body =>
    located (variant "For" [record "ForStmt"
      [("init", dumpStmt? init), ("cond", dumpExpr? cond), ("post", dumpStmt? post), ("body", body.dump)]]) loc
  | .range loc key value define operand body =>
    located (variant "Range" [record "RangeStmt"
      [("key", dumpExpr? key), ("value", dumpExpr? value), ("define", bool define), ("expr", operand.dump),
        ("body", body.dump)]]) loc

/-- A statement that may be missing. -/
def dumpStmt? : Option Stmt → Dump
  | some s => variant "Some" [s.dump]
  | none => word "None"

/-- Statements. -/
def dumpStmts : List Stmt → List Dump
  | [] => []
  | s :: ss => s.dump :: dumpStmts ss

/-- A clause of a switch with its location. -/
def CaseClause.dump : CaseClause → Dump
  | ⟨loc, cases, body⟩ =>
    located (record "CaseClause" [("list", dumpCaseList cases), ("body", list (dumpStmts body))]) loc

/-- The list of a clause. -/
def dumpCaseList : Option (List Expr) → Dump
  | some es => variant "Some" [list (dumpExprs es)]
  | none => word "None"

/-- Clauses of a switch. -/
def dumpCases : List CaseClause → List Dump
  | [] => []
  | c :: cs => c.dump :: dumpCases cs

/-- A clause of a select with its location. -/
def CommClause.dump : CommClause → Dump
  | ⟨loc, comm, body⟩ =>
    located (record "CommClause" [("comm", dumpStmt? comm), ("body", list (dumpStmts body))]) loc

/-- Clauses of a select. -/
def dumpComms : List CommClause → List Dump
  | [] => []
  | c :: cs => c.dump :: dumpComms cs

/-- A declaration other than that of a function. -/
def DeclGroup.dump : DeclGroup → Dump
  | ⟨keyword, specs, grouped⟩ =>
    record "GenDecl" [("keyword", word keyword.label), ("specs", list (dumpSpecs specs)), ("grouped", bool grouped)]

/-- A specification with its location. -/
def Spec.dump : Spec → Dump
  | .import loc spec => located (variant "Import" [spec.dump]) loc
  | .value loc specNames type values =>
    located (variant "Value" [record "ValueSpec"
      [("names", names specNames), ("ty", dumpExpr? type), ("values", list (dumpExprs values))]]) loc
  | .type loc name type => located (variant "Type" [record "TypeSpec" [("name", name.dump), ("ty", type.dump)]]) loc

/-- Specifications. -/
def dumpSpecs : List Spec → List Dump
  | [] => []
  | s :: ss => s.dump :: dumpSpecs ss

end

/-- The declaration of a function. -/
def FuncDecl.dump (f : FuncDecl) : Dump :=
  record "FuncDecl"
    [("recv", optional (f.receiver.map fun fs => list (dumpFields fs))), ("name", f.name.dump), ("ty", f.sig.dump),
      ("body", optional (f.body.map Block.dump))]

/-- A declaration with its location. -/
def Decl.dump : Decl → Dump
  | .bad loc => located (word "Bad") loc
  | .group loc g => located (variant "Gen" [g.dump]) loc
  | .func loc f => located (variant "Func" [f.dump]) loc

/-- A file. -/
def SourceFile.dump (f : SourceFile) : Dump :=
  record "SourceFile" [("package", f.package.dump), ("decls", list (f.decls.map Decl.dump)), ("loc", f.loc.dump)]

end GoSyntax
