import Assay.Value.Basic

/-!
Checker options: the rules from which a checker is made. Every kind of checker takes the same
record and consults the options that mean something to it.
-/

set_option autoImplicit false
set_option relaxedAutoImplicit false

namespace Assay

/-- The names of the options, in the order of the record. -/
inductive OptionName where
  | mandatory
  | value
  | maxLength
  | minLength
  | length
  | regex
  | isFloat
  | isInteger
  | isPositive
  | isNegative
  | isNotNull
  | minimum
  | maximum
  deriving DecidableEq

namespace OptionName

def all : List OptionName :=
  [.mandatory, .value, .maxLength, .minLength, .length, .regex, .isFloat, .isInteger, .isPositive,
    .isNegative, .isNotNull, .minimum, .maximum]

def label : OptionName → String
  | .mandatory => "mandatory"
  | .value => "value"
  | .maxLength => "max_length"
  | .minLength => "min_length"
  | .length => "length"
  | .regex => "regex"
  | .isFloat => "is_float"
  | .isInteger => "is_integer"
  | .isPositive => "is_positive"
  | .isNegative => "is_negative"
  | .isNotNull => "is_not_null"
  | .minimum => "minimum"
  | .maximum => "maximum"

def ofLabel? (label : String) : Option OptionName := all.find? fun name => name.label == label

end OptionName

/-- The options of a checker. An option that is absent leaves the value free; a switch is on when
its value counts as true. -/
structure Options where
  mandatory : Value := .bool false
  value : Value := .null
  maxLength : Value := .null
  minLength : Value := .null
  length : Value := .null
  regex : Value := .null
  isFloat : Value := .bool false
  isInteger : Value := .bool false
  isPositive : Value := .bool false
  isNegative : Value := .bool false
  isNotNull : Value := .bool false
  minimum : Value := .null
  maximum : Value := .null
  deriving DecidableEq

namespace Options

def get (o : Options) : OptionName → Value
  | .mandatory => o.mandatory
  | .value => o.value
  | .maxLength => o.maxLength
  | .minLength => o.minLength
  | .length => o.length
  | .regex => o.regex
  | .isFloat => o.isFloat
  | .isInteger => o.isInteger
  | .isPositive => o.isPositive
  | .isNegative => o.isNegative
  | .isNotNull => o.isNotNull
  | .minimum => o.minimum
  | .maximum => o.maximum

/-- The options with one of them set. -/
def set (o : Options) (v : Value) : OptionName → Options
  | .mandatory => { o with mandatory := v }
  | .value => { o with value := v }
  | .maxLength => { o with maxLength := v }
  | .minLength => { o with minLength := v }
  | .length => { o with length := v }
  | .regex => { o with regex := v }
  | .isFloat => { o with isFloat := v }
  | .isInteger => { o with isInteger := v }
  | .isPositive => { o with isPositive := v }
  | .isNegative => { o with isNegative := v }
  | .isNotNull => { o with isNotNull := v }
  | .minimum => { o with minimum := v }
  | .maximum => { o with maximum := v }

/-- An option that was set is found again, and the others are as they were. -/
@[simp]
theorem get_set (o : Options) (v : Value) (name other : OptionName) :
    (o.set v name).get other = if other = name then v else o.get other := by
  cases name <;> cases other <;> rfl

/-- Options that agree in every name are the same. -/
theorem ext_get {o p : Options} (h : ∀ name, o.get name = p.get name) : o = p := by
  cases o
  cases p
  have mandatory := h .mandatory
  have value := h .value
  have maxLength := h .maxLength
  have minLength := h .minLength
  have length := h .length
  have regex := h .regex
  have isFloat := h .isFloat
  have isInteger := h .isInteger
  have isPositive := h .isPositive
  have isNegative := h .isNegative
  have isNotNull := h .isNotNull
  have minimum := h .minimum
  have maximum := h .maximum
  simp only [get] at *
  simp [*]

end Options

end Assay
