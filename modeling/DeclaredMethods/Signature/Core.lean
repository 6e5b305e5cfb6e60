import DeclaredMethods.Signature.Environment.Basic

/-!
# Core signatures

The signatures of the core classes, which an environment starts from unless it is asked not to.
They cover the methods that delegation is most often used with.
-/

namespace DeclaredMethods.Signature

def coreLines : List String :=
  ["class BasicObject",
    "  def !: () -> bool",
    "  def ==: (untyped other) -> bool",
    "  def !=: (untyped other) -> bool",
    "  def equal?: (untyped other) -> bool",
    "  def instance_eval: [U] () \x7b (self) -> U \x7d -> U",
    "  def __id__: () -> Integer",
    "end",
    "module Kernel",
    "  def class: () -> untyped",
    "  def frozen?: () -> bool",
    "  def freeze: () -> self",
    "  def dup: () -> self",
    "  def hash: () -> Integer",
    "  def inspect: () -> String",
    "  def is_a?: (Module klass) -> bool",
    "  def kind_of?: (Module klass) -> bool",
    "  def nil?: () -> bool",
    "  def respond_to?: (Symbol | String name, ?bool include_all) -> bool",
    "  def send: (Symbol | String name, *untyped args) -> untyped",
    "  def tap: () \x7b (self) -> void \x7d -> self",
    "  def then: [T] () \x7b (self) -> T \x7d -> T",
    "  def to_s: () -> String",
    "  def object_id: () -> Integer",
    "  def instance_variable_get: (Symbol | String name) -> untyped",
    "  alias is_instance_of? is_a?",
    "end",
    "class Object < BasicObject",
    "  include Kernel",
    "end",
    "class Module",
    "  def name: () -> String?",
    "  def to_s: () -> String",
    "  def ===: (untyped other) -> bool",
    "end",
    "class Class < Module",
    "  def new: (*untyped, **untyped) -> untyped",
    "  def superclass: () -> Class?",
    "end",
    "module Comparable",
    "  def <: (untyped other) -> bool",
    "  def <=: (untyped other) -> bool",
    "  def >: (untyped other) -> bool",
    "  def >=: (untyped other) -> bool",
    "  def between?: (untyped min, untyped max) -> bool",
    "  def clamp: (untyped min, untyped max) -> self",
    "end",
    "interface _Each[out Elem]",
    "  def each: () \x7b (Elem) -> void \x7d -> void",
    "end",
    "module Enumerable[unchecked out Elem] : _Each[Elem]",
    "  def to_a: () -> Array[Elem]",
    "  def first: () -> Elem?",
    "           | (Integer n) -> Array[Elem]",
    "  def map: [U] () \x7b (Elem) -> U \x7d -> Array[U]",
    "  def select: () \x7b (Elem) -> boolish \x7d -> Array[Elem]",
    "  def count: () -> Integer",
    "  def include?: (Elem) -> bool",
    "  def min: () -> Elem?",
    "  def max: () -> Elem?",
    "  def sort: () -> Array[Elem]",
    "end",
    "class NilClass",
    "  def to_a: () -> []",
    "  def to_s: () -> \"\"",
    "  def nil?: () -> true",
    "end",
    "class TrueClass",
    "  def !: () -> false",
    "  def &: (untyped obj) -> bool",
    "  def to_s: () -> \"true\"",
    "end",
    "class FalseClass",
    "  def !: () -> true",
    "  def &: (untyped obj) -> false",
    "  def to_s: () -> \"false\"",
    "end",
    "class Numeric",
    "  include Comparable",
    "  def +: (Numeric) -> Numeric",
    "  def -: (Numeric) -> Numeric",
    "  def zero?: () -> bool",
    "  def positive?: () -> bool",
    "  def negative?: () -> bool",
    "  def abs: () -> Numeric",
    "  def to_i: () -> Integer",
    "  def to_f: () -> Float",
    "end",
    "class Integer < Numeric",
    "  def +: (Integer) -> Integer",
    "       | (Float) -> Float",
    "  def -: (Integer) -> Integer",
    "       | (Float) -> Float",
    "  def *: (Integer) -> Integer",
    "       | (Float) -> Float",
    "  def abs: () -> Integer",
    "  def succ: () -> Integer",
    "  def times: () \x7b (Integer) -> void \x7d -> self",
    "  def to_s: (?Integer base) -> String",
    "  def even?: () -> bool",
    "  def odd?: () -> bool",
    "end",
    "class Float < Numeric",
    "  def +: (Numeric) -> Float",
    "  def -: (Numeric) -> Float",
    "  def abs: () -> Float",
    "  def round: (?Integer digits) -> Float",
    "  def floor: () -> Integer",
    "  def ceil: () -> Integer",
    "  def nan?: () -> bool",
    "end",
    "class String",
    "  include Comparable",
    "  def +: (String) -> String",
    "  def *: (Integer) -> String",
    "  def length: () -> Integer",
    "  def size: () -> Integer",
    "  def empty?: () -> bool",
    "  def upcase: () -> String",
    "  def downcase: () -> String",
    "  def strip: () -> String",
    "  def split: (?String | Regexp pattern, ?Integer limit) -> Array[String]",
    "  def start_with?: (*String prefixes) -> bool",
    "  def end_with?: (*String suffixes) -> bool",
    "  def include?: (String other) -> bool",
    "  def to_sym: () -> Symbol",
    "  def to_i: () -> Integer",
    "  def to_s: () -> String",
    "  alias to_str to_s",
    "end",
    "class Symbol",
    "  include Comparable",
    "  def to_proc: () -> Proc",
    "  def to_s: () -> String",
    "  def to_sym: () -> self",
    "  def length: () -> Integer",
    "  def size: () -> Integer",
    "end",
    "class Regexp",
    "  def match?: (String str) -> bool",
    "  def source: () -> String",
    "end",
    "class Proc",
    "  def call: (*untyped) -> untyped",
    "  def arity: () -> Integer",
    "  def lambda?: () -> bool",
    "end",
    "class Array[unchecked out Elem]",
    "  include Enumerable[Elem]",
    "  def []: (Integer index) -> Elem",
    "        | (Integer start, Integer length) -> Array[Elem]?",
    "  def first: () -> Elem?",
    "           | (Integer n) -> Array[Elem]",
    "  def last: () -> Elem?",
    "          | (Integer n) -> Array[Elem]",
    "  def length: () -> Integer",
    "  def size: () -> Integer",
    "  def empty?: () -> bool",
    "  def push: (*Elem) -> self",
    "  def <<: (Elem) -> self",
    "  def join: (?String separator) -> String",
    "  def compact: () -> Array[Elem]",
    "  def each: () \x7b (Elem) -> void \x7d -> self",
    "end",
    "class Hash[unchecked out K, unchecked out V]",
    "  include Enumerable[[K, V]]",
    "  def []: (K key) -> V?",
    "  def []=: (K key, V value) -> V",
    "  def fetch: (K key) -> V",
    "           | [T] (K key, T default) -> (V | T)",
    "  def key?: (K key) -> bool",
    "  def keys: () -> Array[K]",
    "  def values: () -> Array[V]",
    "  def size: () -> Integer",
    "  def empty?: () -> bool",
    "  def each: () \x7b ([K, V]) -> void \x7d -> self",
    "end",
    "class Range[out Elem]",
    "  include Enumerable[Elem]",
    "  def begin: () -> Elem",
    "  def end: () -> Elem",
    "  def cover?: (untyped) -> bool",
    "end",
    "class Time",
    "  include Comparable",
    "  def self.now: () -> Time",
    "  def year: () -> Integer",
    "  def month: () -> Integer",
    "  def day: () -> Integer",
    "  def to_i: () -> Integer",
    "  def iso8601: (?Integer fraction_digits) -> String",
    "end",
    "class Exception",
    "  def message: () -> String",
    "  def backtrace: () -> Array[String]?",
    "end",
    "class StandardError < Exception",
    "end"]

def coreSignatures : String :=
  "\n".intercalate coreLines

def Environment.core : Environment :=
  match Environment.empty.load coreSignatures with
  | .ok env => env
  | .error _ => .empty

end DeclaredMethods.Signature
