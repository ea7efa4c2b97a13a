import LateConst.Notice
import LateConst.Tree

/-!
# What is wrong with a program before it runs

A scope is a list of names declared together: those of a program, of a block, of a function (its
parameters and the names declared directly in its body), or the single variable of a loop or a
handler. `Program.complaints` lists every declaration of a name that its scope already has, and
every `return` outside of all functions. The declarations of a scope come first, in the order of
the text, and then what is found inside its statements.
-/

namespace LateConst

inductive Complaint where
  /-- A name declared again in the scope of its first declaration. -/
  | redeclared (first guilty : Ident)
  | strayReturn (span : Span)
  deriving DecidableEq, Repr

/-- The identifiers that a statement declares in the scope it stands in. -/
def Stmt.declared : Stmt → List Ident
  | .declare _ items _ => items.map Declarator.ident
  | .destructure _ idents _ _ => idents
  | .function ident _ _ _ => [ident]
  | _ => []

/-- The complaints about a scope that holds `known` and in which more names are declared. -/
def redeclarations (known : List Ident) : List Ident → List Complaint
  | [] => []
  | ident :: more =>
    match known.find? fun earlier ↦ earlier.name == ident.name with
    | some first => .redeclared first ident :: redeclarations known more
    | none => redeclarations (known ++ [ident]) more

def scopeComplaints (params : List Ident) (body : List Stmt) : List Complaint :=
  redeclarations [] (params ++ body.flatMap Stmt.declared)

mutual

def Expr.complaints : Expr → List Complaint
  | .literal _ _ => []
  | .lookup _ => []
  | .typeOf arg _ => arg.complaints
  | .unary _ arg _ => arg.complaints
  | .binary lhs _ rhs _ => lhs.complaints ++ rhs.complaints
  | .shortcut lhs _ rhs _ => lhs.complaints ++ rhs.complaints
  | .call callee args _ => callee.complaints ++ exprsComplaints args
  | .index base index _ => base.complaints ++ index.complaints
  | .array elements _ => exprsComplaints elements
  | .function params body _ => scopeComplaints params body ++ stmtsComplaints true body

def exprsComplaints : List Expr → List Complaint
  | [] => []
  | e :: more => e.complaints ++ exprsComplaints more

def Stmt.complaints (inFunction : Bool) : Stmt → List Complaint
  | .declare _ items _ => itemsComplaints items
  | .destructure _ _ init _ => init.complaints
  | .function _ params body _ => scopeComplaints params body ++ stmtsComplaints true body
  | .assign _ value _ => value.complaints
  | .expr value _ => value.complaints
  | .print value _ => value.complaints
  | .ret value span =>
    (if inFunction then [] else [.strayReturn span]) ++
      match value with
      | none => []
      | some e => e.complaints
  | .pause _ => []
  | .spawn value _ => value.complaints
  | .throw value _ => value.complaints
  | .block block => block.complaints inFunction
  | .branch cond thenPart elsePart _ =>
    cond.complaints ++ thenPart.complaints inFunction ++
      match elsePart with
      | none => []
      | some s => s.complaints inFunction
  | .whileLoop cond body _ => cond.complaints ++ body.complaints inFunction
  | .forOf _ _ iterable body _ => iterable.complaints ++ body.complaints inFunction
  | .tryCatch body _ handler _ => body.complaints inFunction ++ handler.complaints inFunction

def stmtsComplaints (inFunction : Bool) : List Stmt → List Complaint
  | [] => []
  | s :: more => s.complaints inFunction ++ stmtsComplaints inFunction more

def Declarator.complaints : Declarator → List Complaint
  | .mk _ none => []
  | .mk _ (some init) => init.complaints

def itemsComplaints : List Declarator → List Complaint
  | [] => []
  | item :: more => item.complaints ++ itemsComplaints more

def Block.complaints (inFunction : Bool) : Block → List Complaint
  | .mk body _ => scopeComplaints [] body ++ stmtsComplaints inFunction body

end

def Program.complaints (program : Program) : List Complaint :=
  scopeComplaints [] program ++ stmtsComplaints false program

/-- Puts a complaint into a bulletin. The first declaration is known by where it stands. -/
def Bulletin.complain (b : Bulletin) : Complaint → Except Bulletin Bulletin
  | .redeclared first guilty =>
    b.redeclaration first.name first.span.left first.span guilty.span
  | .strayReturn span => b.strayReturn span

/-- Puts all complaints about a program into a bulletin, or as many as it takes to fill it. -/
def Bulletin.check (b : Bulletin) (program : Program) : Except Bulletin Bulletin :=
  program.complaints.foldlM Bulletin.complain b

end LateConst
