import Javelin.Library.SourceTree

/-!
# Throwables of `java.lang`

Exceptions and errors.
-/

namespace Javelin.Library

/-- Exceptions and errors. -/
def throwableSources : List SourceFile :=
  [ sourceOf "java/lang/ArithmeticException.java"
    [ "package java.lang;",
      "",
      "public class ArithmeticException extends RuntimeException \x7b",
      "    public ArithmeticException() \x7b\x7d",
      "    public ArithmeticException(String message) \x7b",
      "        super(message);",
      "    \x7d",
      "\x7d" ],
    sourceOf "java/lang/ArrayIndexOutOfBoundsException.java"
    [ "package java.lang;",
      "",
      "public class ArrayIndexOutOfBoundsException extends IndexOutOfBoundsException \x7b",
      "    public ArrayIndexOutOfBoundsException() \x7b\x7d",
      "    public ArrayIndexOutOfBoundsException(String message) \x7b",
      "        super(message);",
      "    \x7d",
      "\x7d" ],
    sourceOf "java/lang/AssertionError.java"
    [ "package java.lang;",
      "",
      "public class AssertionError extends Error \x7b",
      "    public AssertionError() \x7b\x7d",
      "    public AssertionError(Object detailMessage) \x7b\x7d",
      "\x7d" ],
    sourceOf "java/lang/ClassCastException.java"
    [ "package java.lang;",
      "",
      "public class ClassCastException extends RuntimeException \x7b",
      "    public ClassCastException() \x7b\x7d",
      "    public ClassCastException(String message) \x7b",
      "        super(message);",
      "    \x7d",
      "\x7d" ],
    sourceOf "java/lang/CloneNotSupportedException.java"
    [ "package java.lang;",
      "",
      "public class CloneNotSupportedException extends Exception \x7b",
      "    public CloneNotSupportedException() \x7b\x7d",
      "    public CloneNotSupportedException(String message) \x7b",
      "        super(message);",
      "    \x7d",
      "\x7d" ],
    sourceOf "java/lang/Error.java"
    [ "package java.lang;",
      "",
      "public class Error extends Throwable \x7b",
      "    public Error() \x7b\x7d",
      "    public Error(String message) \x7b",
      "        super(message);",
      "    \x7d",
      "\x7d" ],
    sourceOf "java/lang/Exception.java"
    [ "package java.lang;",
      "",
      "public class Exception extends Throwable \x7b",
      "    public Exception() \x7b\x7d",
      "    public Exception(String message) \x7b",
      "        super(message);",
      "    \x7d",
      "\x7d" ],
    sourceOf "java/lang/IllegalArgumentException.java"
    [ "package java.lang;",
      "",
      "public class IllegalArgumentException extends RuntimeException \x7b",
      "    public IllegalArgumentException() \x7b\x7d",
      "    public IllegalArgumentException(String message) \x7b",
      "        super(message);",
      "    \x7d",
      "\x7d" ],
    sourceOf "java/lang/IllegalStateException.java"
    [ "package java.lang;",
      "",
      "public class IllegalStateException extends RuntimeException \x7b",
      "    public IllegalStateException() \x7b\x7d",
      "    public IllegalStateException(String message) \x7b",
      "        super(message);",
      "    \x7d",
      "\x7d" ],
    sourceOf "java/lang/IndexOutOfBoundsException.java"
    [ "package java.lang;",
      "",
      "public class IndexOutOfBoundsException extends RuntimeException \x7b",
      "    public IndexOutOfBoundsException() \x7b\x7d",
      "    public IndexOutOfBoundsException(String message) \x7b",
      "        super(message);",
      "    \x7d",
      "\x7d" ],
    sourceOf "java/lang/InterruptedException.java"
    [ "package java.lang;",
      "",
      "public class InterruptedException extends Exception \x7b",
      "    public InterruptedException() \x7b\x7d",
      "    public InterruptedException(String message) \x7b",
      "        super(message);",
      "    \x7d",
      "\x7d" ],
    sourceOf "java/lang/NullPointerException.java"
    [ "package java.lang;",
      "",
      "public class NullPointerException extends RuntimeException \x7b",
      "    public NullPointerException() \x7b\x7d",
      "    public NullPointerException(String message) \x7b",
      "        super(message);",
      "    \x7d",
      "\x7d" ],
    sourceOf "java/lang/NumberFormatException.java"
    [ "package java.lang;",
      "",
      "public class NumberFormatException extends IllegalArgumentException \x7b",
      "    public NumberFormatException() \x7b\x7d",
      "    public NumberFormatException(String message) \x7b",
      "        super(message);",
      "    \x7d",
      "\x7d" ],
    sourceOf "java/lang/RuntimeException.java"
    [ "package java.lang;",
      "",
      "public class RuntimeException extends Exception \x7b",
      "    public RuntimeException() \x7b\x7d",
      "    public RuntimeException(String message) \x7b",
      "        super(message);",
      "    \x7d",
      "\x7d" ],
    sourceOf "java/lang/Throwable.java"
    [ "package java.lang;",
      "",
      "import java.io.Serializable;",
      "",
      "public class Throwable implements Serializable \x7b",
      "    public Throwable() \x7b\x7d",
      "    public Throwable(String message) \x7b\x7d",
      "    public Throwable(String message, Throwable cause) \x7b\x7d",
      "    public Throwable(Throwable cause) \x7b\x7d",
      "    public native String getMessage();",
      "    public native Throwable getCause();",
      "    public native Throwable initCause(Throwable cause);",
      "    public native void printStackTrace();",
      "    public final native void addSuppressed(Throwable exception);",
      "    public final native Throwable[] getSuppressed();",
      "\x7d" ],
    sourceOf "java/lang/UnsupportedOperationException.java"
    [ "package java.lang;",
      "",
      "public class UnsupportedOperationException extends RuntimeException \x7b",
      "    public UnsupportedOperationException() \x7b\x7d",
      "    public UnsupportedOperationException(String message) \x7b",
      "        super(message);",
      "    \x7d",
      "\x7d" ] ]

end Javelin.Library
