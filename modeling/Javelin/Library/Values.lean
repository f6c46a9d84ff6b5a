import Javelin.Library.SourceTree

/-!
# Numbers of `java.lang`

The classes that wrap primitive values, and arithmetic on them.
-/

namespace Javelin.Library

/-- The classes that wrap primitive values, and arithmetic on them. -/
def valueSources : List SourceFile :=
  [ sourceOf "java/lang/Boolean.java"
    [ "package java.lang;",
      "",
      "public final class Boolean implements java.io.Serializable, Comparable<Boolean> \x7b",
      "    public Boolean(boolean value) \x7b\x7d",
      "    public static final Boolean TRUE = new Boolean(true);",
      "    public static final Boolean FALSE = new Boolean(false);",
      "    public static native boolean parseBoolean(String s);",
      "    public static native Boolean valueOf(boolean value);",
      "    public native boolean booleanValue();",
      "    public native int compareTo(Boolean other);",
      "    public native String toString();",
      "    public static native String toString(boolean value);",
      "\x7d" ],
    sourceOf "java/lang/Byte.java"
    [ "package java.lang;",
      "",
      "public final class Byte extends Number implements Comparable<Byte> \x7b",
      "    public Byte(byte value) \x7b\x7d",
      "    public static final byte MIN_VALUE = -128;",
      "    public static final byte MAX_VALUE = 127;",
      "    public static native Byte valueOf(byte value);",
      "    public native byte byteValue();",
      "    public native int intValue();",
      "    public native long longValue();",
      "    public native float floatValue();",
      "    public native double doubleValue();",
      "    public native int compareTo(Byte other);",
      "    public native String toString();",
      "    public static native String toString(byte value);",
      "\x7d" ],
    sourceOf "java/lang/Character.java"
    [ "package java.lang;",
      "",
      "public final class Character implements java.io.Serializable, Comparable<Character> \x7b",
      "    public Character(char value) \x7b\x7d",
      "    public static final char MIN_VALUE = '\\u0000';",
      "    public static final char MAX_VALUE = '\\uFFFF';",
      "    public static native boolean isDigit(char ch);",
      "    public static native boolean isLetter(char ch);",
      "    public static native boolean isWhitespace(char ch);",
      "    public static native Character valueOf(char value);",
      "    public native char charValue();",
      "    public native int compareTo(Character other);",
      "    public native String toString();",
      "    public static native String toString(char value);",
      "\x7d" ],
    sourceOf "java/lang/Double.java"
    [ "package java.lang;",
      "",
      "public final class Double extends Number implements Comparable<Double> \x7b",
      "    public Double(double value) \x7b\x7d",
      "    public static final double MAX_VALUE = 1.7976931348623157E308;",
      "    public static native double parseDouble(String s) throws NumberFormatException;",
      "    public static native boolean isNaN(double v);",
      "    public static native Double valueOf(double value);",
      "    public native double doubleValue();",
      "    public native int intValue();",
      "    public native long longValue();",
      "    public native float floatValue();",
      "    public native int compareTo(Double other);",
      "    public native String toString();",
      "    public static native String toString(double value);",
      "\x7d" ],
    sourceOf "java/lang/Float.java"
    [ "package java.lang;",
      "",
      "public final class Float extends Number implements Comparable<Float> \x7b",
      "    public Float(float value) \x7b\x7d",
      "    public static native Float valueOf(float value);",
      "    public native float floatValue();",
      "    public native int intValue();",
      "    public native long longValue();",
      "    public native double doubleValue();",
      "    public native int compareTo(Float other);",
      "    public native String toString();",
      "    public static native String toString(float value);",
      "\x7d" ],
    sourceOf "java/lang/Integer.java"
    [ "package java.lang;",
      "",
      "public final class Integer extends Number implements Comparable<Integer> \x7b",
      "    public Integer(int value) \x7b\x7d",
      "    public static final int MIN_VALUE = 0x80000000;",
      "    public static final int MAX_VALUE = 0x7fffffff;",
      "    public static native int parseInt(String s) throws NumberFormatException;",
      "    public static native String toHexString(int i);",
      "    public static native Integer valueOf(int value);",
      "    public native int intValue();",
      "    public native long longValue();",
      "    public native float floatValue();",
      "    public native double doubleValue();",
      "    public native int compareTo(Integer other);",
      "    public native String toString();",
      "    public static native String toString(int value);",
      "\x7d" ],
    sourceOf "java/lang/Long.java"
    [ "package java.lang;",
      "",
      "public final class Long extends Number implements Comparable<Long> \x7b",
      "    public Long(long value) \x7b\x7d",
      "    public static final long MIN_VALUE = 0x8000000000000000L;",
      "    public static final long MAX_VALUE = 0x7fffffffffffffffL;",
      "    public static native long parseLong(String s) throws NumberFormatException;",
      "    public static native Long valueOf(long value);",
      "    public native long longValue();",
      "    public native int intValue();",
      "    public native float floatValue();",
      "    public native double doubleValue();",
      "    public native int compareTo(Long other);",
      "    public native String toString();",
      "    public static native String toString(long value);",
      "\x7d" ],
    sourceOf "java/lang/Math.java"
    [ "package java.lang;",
      "",
      "public final class Math \x7b",
      "    private Math() \x7b\x7d",
      "    public static final double E = 2.718281828459045;",
      "    public static final double PI = 3.141592653589793;",
      "    public static native int abs(int a);",
      "    public static native long abs(long a);",
      "    public static native float abs(float a);",
      "    public static native double abs(double a);",
      "    public static native int max(int a, int b);",
      "    public static native long max(long a, long b);",
      "    public static native double max(double a, double b);",
      "    public static native int min(int a, int b);",
      "    public static native long min(long a, long b);",
      "    public static native double min(double a, double b);",
      "    public static native double sqrt(double a);",
      "    public static native double pow(double a, double b);",
      "    public static native double floor(double a);",
      "    public static native double ceil(double a);",
      "    public static native long round(double a);",
      "    public static native int round(float a);",
      "\x7d" ],
    sourceOf "java/lang/Number.java"
    [ "package java.lang;",
      "",
      "import java.io.Serializable;",
      "",
      "public abstract class Number implements Serializable \x7b",
      "    public Number() \x7b\x7d",
      "    public abstract int intValue();",
      "    public abstract long longValue();",
      "    public abstract float floatValue();",
      "    public abstract double doubleValue();",
      "    public byte byteValue() \x7b return (byte) intValue(); \x7d",
      "    public short shortValue() \x7b return (short) intValue(); \x7d",
      "\x7d" ],
    sourceOf "java/lang/Short.java"
    [ "package java.lang;",
      "",
      "public final class Short extends Number implements Comparable<Short> \x7b",
      "    public Short(short value) \x7b\x7d",
      "    public static final short MIN_VALUE = -32768;",
      "    public static final short MAX_VALUE = 32767;",
      "    public static native Short valueOf(short value);",
      "    public native short shortValue();",
      "    public native int intValue();",
      "    public native long longValue();",
      "    public native float floatValue();",
      "    public native double doubleValue();",
      "    public native int compareTo(Short other);",
      "    public native String toString();",
      "    public static native String toString(short value);",
      "\x7d" ],
    sourceOf "java/lang/Void.java"
    [ "package java.lang;",
      "",
      "public final class Void \x7b",
      "    private Void() \x7b\x7d",
      "\x7d" ] ]

end Javelin.Library
