import PbesLab.ClassTable.Reader

namespace PbesLab.Fdr

def numericExpressionRows : List String :=
  ["Common          | common(const common_expression& operand)                                | A common expression",
    "Number          | number(const number_expression& number)                                 | A number",
    "Card            | card(const set_expression& set)                                         | The cardinality of a set",
    "Length          | length(const seq_expression& seq)                                       | The length of a sequence",
    "Plus            | plus(const numeric_expression& left, const numeric_expression& right)   | An addition",
    "Minus           | minus(const numeric_expression& left, const numeric_expression& right)  | A subtraction",
    "Times           | times(const numeric_expression& left, const numeric_expression& right)  | A multiplication",
    "Div             | div(const numeric_expression& left, const numeric_expression& right)    | A division",
    "Mod             | mod(const numeric_expression& left, const numeric_expression& right)    | A modulo operation",
    "Min             | min(const numeric_expression& operand)                                  | A negative number"]

def booleanExpressionRows : List String :=
  ["Common\t\t\t| common(const common_expression& operand)\t\t\t\t\t\t\t\t  | A common expression",
    "true            | true_()\t\t\t\t\t\t\t \t\t\t\t\t\t\t\t\t  | The true value",
    "false           | false_()\t\t\t\t\t\t\t\t\t\t\t\t\t\t\t\t  | The false value",
    "And\t\t\t\t| and_(const boolean_expression& left, const boolean_expression& right)\t  | An and",
    "Or\t\t\t\t| or_(const boolean_expression& left, const boolean_expression& right)\t  | An or",
    "Not             | not(const boolean_expression& operand)\t\t\t\t\t\t\t\t  | An not",
    "Null\t\t\t| null(const seq_expression& seq)\t\t\t\t\t\t\t\t\t\t  | The empty sequence test",
    "Elem\t\t\t| elem(const expression& expr, const seq_expression& seq)\t\t\t\t  | The membership of a sequence test",
    "Member\t\t\t| member(const expression& expr, set_expression& set)\t\t\t\t\t  | The membership of a set test",
    "Empty\t\t\t| empty(const set_expression& set)\t\t\t\t\t\t\t\t\t\t  | The empty set test",
    "Equal\t\t\t| equal(const expression& left, const expression& right)\t\t\t\t  | An equality test",
    "NotEqual\t\t| notequal(const expression& left, const expression& right)\t\t\t\t  | An inequality test",
    "Less\t\t\t| less(const expression& left, const expression& right)\t\t\t\t\t  | A less test",
    "LessOrEqual\t\t| lessorequal(const expression& left, const expression& right)\t\t\t  | A less or equal test",
    "Greater\t\t\t| greater(const expression& left, const expression& right)\t\t\t\t  | A greater test",
    "GreaterOrEqual\t| greaterorequal(const expression& left, const expression& right)\t\t  | A greater or equal test"]

def setExpressionRows : List String :=
  ["Common\t\t\t| common(const common_expression& operand)\t\t\t\t\t\t\t\t\t| A common expression",
    "Targ\t\t\t| targ(const targ& targ)\t\t\t\t\t\t\t\t\t\t\t\t\t| A simple argument",
    "TargGens\t\t| targgens(const targ& targ, const generator_list& gens)\t\t\t\t\t| A complex argument",
    "Targ0\t\t\t| targ0(const targ& targ)\t\t\t\t\t\t\t\t\t\t\t\t\t| A simple argument (for channels)",
    "TargGens0\t\t| targgens0(const targ& targ, const generator_list& gens)\t\t\t\t\t| A complex argument (for channels)",
    "union\t\t\t| union(const set_expression& left, const set_expression& right)\t\t\t| A union",
    "inter\t\t\t| inter(const set_expression& left, const set_expression& right)\t\t\t| An intersection",
    "diff\t\t\t| diff(const set_expression& left, const set_expression& right)\t\t\t\t| A difference",
    "Union\t\t\t| union(const set_expression& set)\t\t\t\t\t\t\t\t\t\t\t| A set union",
    "Inter\t\t\t| inter(const set_expression& set)\t\t\t\t\t\t\t\t\t\t\t| A set intersection",
    "set\t\t\t\t| set(const seq_expression& seq)\t\t\t\t\t\t\t\t\t\t\t| The set of a sequence",
    "Set\t\t\t\t| set(const set_expression& set)\t\t\t\t\t\t\t\t\t\t\t| The set of sets of a set",
    "Seq\t\t\t\t| seq(const seq_expression& seq)\t\t\t\t\t\t\t\t\t\t\t| The set of sequences of a sequence",
    "extensions\t\t| extensions(const expression& expr)\t\t\t\t\t\t\t\t\t\t| The extension set",
    "productions\t\t| productions(const expression& expr)\t\t\t\t\t\t\t\t\t\t| The production set"]

def seqExpressionRows : List String :=
  ["Common\t\t\t| common(const common_expression& operand)\t\t\t\t\t\t\t\t\t| A common expression",
    "Targ\t\t\t| targ(const targ& targ)\t\t\t\t\t\t\t\t\t\t\t\t\t| A simple argument",
    "TargGens\t\t| targgens(const targ& targ, const generator_list& gens)\t\t\t\t\t| A complex argument",
    "Cat\t\t\t\t| cat(const seq_expression& left, const seq_expression& right)\t\t\t\t| The concatenation of two sequences",
    "Concat\t\t\t| concat(const seq_expression& seq)\t\t\t\t\t\t\t\t\t\t\t| The concatenation of a sequence of sequences",
    "Head\t\t\t| head(const seq_expression& seq)\t\t\t\t\t\t\t\t\t\t\t| The head of a non-empty sequence",
    "Tail\t\t\t| tail(const seq_expression& seq)\t\t\t\t\t\t\t\t\t\t\t| The tail of a non-empty sequence"]

def tupleExpressionRows : List String :=
  ["Common\t\t\t| common(const common_expression& operand)\t\t\t\t\t\t\t\t\t| A common expression",
    "Exprs\t\t\t| exprs(const expression_list& exprs)\t\t\t\t\t\t\t\t\t\t| A tuple expression"]

def dottedExpressionRows : List String :=
  ["Common\t\t\t| common(const common_expression& operand)\t\t\t\t\t\t\t\t\t| A common expression",
    "Dot\t\t\t\t| dot(const expression& left, expression& right)\t\t\t\t\t\t\t| A dotted expression"]

def lambdaExpressionRows : List String :=
  ["Common\t\t\t| common(const common_expression& operand)\t\t\t\t\t\t\t\t\t| A common expression",
    "LambdaExpr\t\t| lambdaexpr(const expression_list& exprs, const any& any)\t\t\t\t\t| A lambda expression"]

def commonExpressionRows : List String :=
  ["Conditional\t\t| conditional(const boolean_expression& guard, const any& thenpart, const any& elsepart)\t| A conditional",
    "Name\t\t\t| name(const name& name)\t\t\t\t\t\t\t\t\t\t\t\t\t| A name",
    "LambdaAppl\t\t| lambdaappl(const lambda_expression& lambda, const expression_list& exprs)\t| A lambda application",
    "LocalDef\t\t| localdef(const definition_list& defs, const any& any)\t\t\t\t\t\t| A local definition",
    "Bracketed\t\t| bracketed(const any& operand)\t\t\t\t\t\t\t\t\t\t\t\t| A bracketed process or expression"]

def expressionRows : List String :=
  ["Numb\t\t\t| numb(const numeric_expression& operand)\t\t\t\t\t\t\t\t\t| A numeric expression",
    "Bool\t\t\t| bool_(const boolean_expression& operand)\t\t\t\t\t\t\t\t\t| A boolean expression",
    "Set\t\t\t\t| set(const set_expression& operand)\t\t\t\t\t\t\t\t\t\t| A set expression",
    "Seq\t\t\t\t| seq(const seq_expression& operand)\t\t\t\t\t\t\t\t\t\t| A seq expression",
    "Tuple\t\t\t| tuple(const tuple_expression& operand)\t\t\t\t\t\t\t\t\t| A tuple expression",
    "Dotted\t\t\t| dotted(const dotted_expression& operand)\t\t\t\t\t\t\t\t\t| A dotted expression",
    "Lambda\t\t\t| lambda(const lambda_expression& operand)\t\t\t\t\t\t\t\t\t| A lambda expression"]

def anyRows : List String :=
  ["Expr\t\t\t| expr(const expression& operand)\t\t\t\t\t\t\t\t\t\t\t| An expression",
    "Proc\t\t\t| proc(const process& operand)\t\t\t\t\t\t\t\t\t\t\t\t| A process"]

def definitionRows : List String :=
  ["Assign\t\t\t| assign(const any& left, const any& right)\t\t\t\t\t\t\t\t\t| An assignment",
    "Channel\t\t\t| channel(const name_list& names, const type& type)\t\t\t\t\t\t\t| A channel",
    "SimpleChannel\t| channel(const name_list& names)\t\t\t\t\t\t\t\t\t\t\t| A simple channel",
    "NameType\t\t| nametype(const name& name, const type& type)\t\t\t\t\t\t\t\t| A nametype",
    "DataType\t\t| datatype(const name& name, const vartype_list& vartypes)\t\t\t\t\t| A datatype",
    "SubType\t\t\t| subtype(const name& name, const vartype_list& vartypes)\t\t\t\t\t| A subtype",
    "External\t\t| external(const name_list& names)\t\t\t\t\t\t\t\t\t\t\t| An external",
    "Transparent\t\t| transparent(const trname_list& trnames)\t\t\t\t\t\t\t\t\t| A transparent",
    "Assert\t\t\t| assert_(const check& check)\t\t\t\t\t\t\t\t\t\t\t\t| An assertion",
    "Print\t\t\t| print(const expression& expr)\t\t\t\t\t\t\t\t\t\t\t\t| A print",
    "Include\t\t\t| include(const filename& filename)\t\t\t\t\t\t\t\t\t\t\t| An include"]

def vartypeRows : List String :=
  ["SimpleBranch\t| simplebranch(const name& name)\t\t\t\t\t\t\t\t\t\t\t| A simple branch",
    "Branch\t\t\t| branch(const name& name, const type& type)\t\t\t\t\t\t\t\t| A branch"]

def typeRows : List String :=
  ["TypeProduct\t\t| typeproduct(const type& left, const type& right)\t\t\t\t\t\t\t| A type product",
    "TypeTuple\t\t| typetuple(const type_list& types)\t\t\t\t\t\t\t\t\t\t\t| A type tuple",
    "TypeSet\t\t\t| typeset(const set_expression& set)\t\t\t\t\t\t\t\t\t\t| A type set",
    "SympleTypeName\t| simpletypename(const name& name)\t\t\t\t\t\t\t\t\t\t\t| A simple type name",
    "TypeName\t\t| typename(const name& name, const type& type)\t\t\t\t\t\t\t\t| A type name"]

def checkRows : List String :=
  ["BCheck\t\t\t| bcheck(const boolean_expression& expr)\t\t\t\t\t\t\t\t\t| A boolean check",
    "RCheck\t\t\t| rcheck(const process& left, const process& right, const refined& refined)\t| A refinement check",
    "TCheck\t\t\t| tcheck(const process& process, const test& test)\t\t\t\t\t\t\t| A test",
    "NotCheck\t\t| notcheck(const check& check)\t\t\t\t\t\t\t\t\t\t\t\t| A negated check"]

def refinedRows : List String :=
  ["Model\t\t\t| model(const model& model)\t\t\t\t\t\t\t\t\t\t\t\t\t| A model"]

def modelRows : List String :=
  ["Nil\t\t\t\t| nil()\t\t\t\t\t\t\t\t\t\t\t\t\t\t\t\t\t\t| An empty",
    "T\t\t\t\t| t()\t\t\t\t\t\t\t\t\t\t\t\t\t\t\t\t\t\t| A traces"]

def failuremodelRows : List String :=
  ["F\t\t\t\t| f()\t\t\t\t\t\t\t\t\t\t\t\t\t\t\t\t\t\t| A failures",
    "FD\t\t\t\t| fd()\t\t\t\t\t\t\t\t\t\t\t\t\t\t\t\t\t\t| A faulures/divergences"]

def testRows : List String :=
  ["divergence_free\t| divergence_free()\t\t\t\t\t\t\t\t\t\t\t\t\t\t\t| A divergence free",
    "Test\t\t\t| test(const testtype& testtype, const failuremodel& failuremodel)\t\t\t| A complex test"]

def testtypeRows : List String :=
  ["deterministic\t| deterministic()\t\t\t\t\t\t\t\t\t\t\t\t\t\t\t| A deterministic",
    "deadlock_free\t| deadlock_free()\t\t\t\t\t\t\t\t\t\t\t\t\t\t\t| A deadlock free",
    "livelock_free\t| livelock_free()\t\t\t\t\t\t\t\t\t\t\t\t\t\t\t| A livelock free"]

def trnameRows : List String :=
  ["normal\t\t\t| normal()\t\t\t\t\t\t\t\t\t\t\t\t\t\t\t\t\t| A normal",
    "normalise\t\t| normalise()\t\t\t\t\t\t\t\t\t\t\t\t\t\t\t\t| A normal",
    "normalize\t\t| normalize()\t\t\t\t\t\t\t\t\t\t\t\t\t\t\t\t| A normal",
    "sbsim\t\t\t| sbsim()\t\t\t\t\t\t\t\t\t\t\t\t\t\t\t\t\t| A sbsim",
    "tau_loop_factor\t| tau_loop_factor()\t\t\t\t\t\t\t\t\t\t\t\t\t\t\t| A tau_loop_factor",
    "diamond\t\t\t| diamond()\t\t\t\t\t\t\t\t\t\t\t\t\t\t\t\t\t| A diamond",
    "model_compress\t| model_compress()\t\t\t\t\t\t\t\t\t\t\t\t\t\t\t| A model compress",
    "explicate\t\t| explicate()\t\t\t\t\t\t\t\t\t\t\t\t\t\t\t\t| An explicate"]

def filenameRows : List String :=
  ["FileName\t\t| filename(const name_list& names)\t\t\t\t\t\t\t\t\t\t\t| A filename"]

def fdrspecRows : List String :=
  ["FDRSpec\t\t\t| fdrspec(const definition_list& defs)\t\t\t\t\t\t\t\t\t\t| An FDR specification"]

def targRows : List String :=
  ["Nil\t\t\t\t| nil()\t\t\t\t\t\t\t\t\t\t\t\t\t\t\t\t\t\t| An empty",
    "Exprs\t\t\t| exprs(const expression_list& exprs)\t\t\t\t\t\t\t\t\t\t| An expression list",
    "ClosedRange\t\t| closedrange(const numeric_expression& begin, const numeric_expression& end)\t| A closed range",
    "OpenRange\t\t| openrange(const numeric_expression& begin)\t\t\t\t\t\t\t\t\t| An open range"]

def genRows : List String :=
  ["BGen\t\t\t| bgen(const boolean_expression& operand)\t\t\t\t\t\t\t\t\t| A boolean",
    "Gen\t\t\t\t| gen(const expression& left, const expression& right)\t\t\t\t\t\t| A generator"]

def processRows : List String :=
  ["Common\t\t\t| common(const common_expression& operand)\t\t\t\t\t\t\t\t\t| A common expression",
    "STOP\t\t\t| stop()\t\t\t\t\t\t\t\t\t\t\t\t\t\t\t\t\t| A stop",
    "SKIP\t\t\t| skip()\t\t\t\t\t\t\t\t\t\t\t\t\t\t\t\t\t| A skip",
    "CHAOS\t\t\t| chaos(const set_expression& set)\t\t\t\t\t\t\t\t\t\t\t| A chaos",
    "Prefix\t\t\t| prefix(const dotted_expression& dotted, const field_list& fields, const process& process)\t| A prefix",
    "ExternalChoice\t| externalchoice(const process& left, const process& right)\t\t\t\t\t| An external choice",
    "InternalChoice\t| internalchoice(const process& left, const process& right)\t\t\t\t\t| An internal choice",
    "SequentialComposition\t| sequentialcomposition(const process& left, const process& right)\t| A sequential composition",
    "Interrupt\t\t| interrupt(const process& left, const process& right)\t\t\t\t\t\t| An interrupt",
    "Hiding\t\t\t| hiding(const process& process, const set_expression& set)\t\t\t\t\t| An hiding",
    "Rename\t\t\t| rename(const process& process, const renaming& renaming)\t\t\t\t\t| A renaming",
    "Interleave\t\t| interleave(const process& left, const process& right)\t\t\t\t\t\t| An interleave",
    "Sharing\t\t\t| sharing(const process& left, const process& right, const set_expression& set)\t| A sharing",
    "AlphaParallel\t| alphaparallel(const process& left, const process& right, const set_expression& left_set, const set_expression& right_set)\t| An alpha parallel",
    "RepExternalChoice\t| repexternalchoice(const generator_list& gens, const process& process)\t| A replicated external choice",
    "RepInternalChoice\t| repinternalchoice(const generator_list& gens, const process& process)\t| A replicated internal choice",
    "RepSequentialComposition\t| repsequentialcomposition(const generator_list& gens, const process& process)\t| A replicated sequential composition",
    "RepInterleave\t| repinterleave(const generator_list& gens, const process& process)\t\t\t| A replicated interleave",
    "RepSharing\t\t| repsharing(const generator_list& gens, const process& process, const set_expression& set)\t| A replicated sharing",
    "RepAlphaParallel\t| repalphaparallel(const generator_list& gens, const process& process, const set_expression& set)\t| A replicated alpha parallel",
    "UntimedTimeOut\t| untimedtimeout(const process& left, const process& right)\t\t\t\t\t| An untimed time-out",
    "BoolGuard\t\t| boolguard(const boolean_expression& guard, const process& process)\t\t| A boolean guard",
    "LinkedParallel\t| linkedparallel(const process& left, const process& right, const linkpar& linkpar)\t| A linked parallel",
    "RepLinkedParallel\t| replinkedparallel(const generator_list& gens, const process& process, const linkpar& linkpar)\t| A replicated linked parallel"]

def fieldRows : List String :=
  ["SimpleInput\t\t| simpleinput(const expression& expr)\t\t\t\t\t\t\t\t\t\t| A simple input",
    "Input\t\t\t| input(const expression& expr, const set_expression& restriction)\t\t\t| An input",
    "Output\t\t\t| output(const expression& expr)\t\t\t\t\t\t\t\t\t\t\t| An output"]

def renamingRows : List String :=
  ["Maps\t\t\t| maps(const map_list& maps)\t\t\t\t\t\t\t\t\t\t\t\t| A map list",
    "MapsGens\t\t| mapsgens(const map_list& maps, const generator_list& gens)\t\t\t\t| A map/generator list"]

def mapRows : List String :=
  ["Map\t\t\t\t| map(const dotted_expression& left, const dotted_expression& right)\t\t| A map"]

def linkparRows : List String :=
  ["Links\t\t\t| links(const link_list& links)\t\t\t\t\t\t\t\t\t\t\t\t| A link list",
    "LinksGens\t\t| linksgens(const link_list& links, const generator_list& gens)\t\t\t\t| A link/generator list"]

def linkRows : List String :=
  ["Link\t\t\t| link(const dotted_expression& left, const dotted_expression& right)\t\t| A link"]

def rows : List (String × List String) :=
  [("NUMERIC_EXPRESSION_CLASSES", numericExpressionRows),
    ("BOOLEAN_EXPRESSION_CLASSES", booleanExpressionRows),
    ("SET_EXPRESSION_CLASSES", setExpressionRows),
    ("SEQ_EXPRESSION_CLASSES", seqExpressionRows),
    ("TUPLE_EXPRESSION_CLASSES", tupleExpressionRows),
    ("DOTTED_EXPRESSION_CLASSES", dottedExpressionRows),
    ("LAMBDA_EXPRESSION_CLASSES", lambdaExpressionRows),
    ("COMMON_EXPRESSION_CLASSES", commonExpressionRows),
    ("EXPRESSION_CLASSES", expressionRows),
    ("ANY_CLASSES", anyRows),
    ("DEFINITION_CLASSES", definitionRows),
    ("VARTYPE_CLASSES", vartypeRows),
    ("TYPE_CLASSES", typeRows),
    ("CHECK_CLASSES", checkRows),
    ("REFINED_CLASSES", refinedRows),
    ("MODEL_CLASSES", modelRows),
    ("FAILUREMODEL_CLASSES", failuremodelRows),
    ("TEST_CLASSES", testRows),
    ("TESTTYPE_CLASSES", testtypeRows),
    ("TRNAME_CLASSES", trnameRows),
    ("FILENAME_CLASSES", filenameRows),
    ("FDRSPEC_CLASSES", fdrspecRows),
    ("TARG_CLASSES", targRows),
    ("GEN_CLASSES", genRows),
    ("PROCESS_CLASSES", processRows),
    ("FIELD_CLASSES", fieldRows),
    ("RENAMING_CLASSES", renamingRows),
    ("MAP_CLASSES", mapRows),
    ("LINKPAR_CLASSES", linkparRows),
    ("LINK_CLASSES", linkRows)]

/-- The text of a table, with line ends around every row. -/
def textOf (rows : List String) : String :=
  "\n" ++ String.join (rows.map (· ++ "\n"))

def texts : List (String × String) :=
  rows.map fun t => (t.1, textOf t.2)

def tables : Except TableFault (List ClassTable) :=
  texts.mapM fun t => ClassTable.read t.1 t.2

end PbesLab.Fdr
